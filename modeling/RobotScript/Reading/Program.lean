import RobotScript.Reading.Statement

/-!
# Reading whole scripts

A script is any number of statements up to the end.  The first fault ends the
reading, and no part of a faulty script is kept.
-/

namespace RobotScript

namespace Reading

/-- Reads statements up to the end of the script, behind those in `done`, the
last one first.  Each statement takes a token, so the lexemes run out. -/
def statementsFrom (done : List Statement) (c : Cursor) :
    EStateM.Result SyntaxError Cursor (List Statement) :=
  if c.rest.isEmpty then
    .ok done.reverse c
  else
    match _h : statement c with
    | .ok s c' => statementsFrom (s :: done) c'
    | .error e c' => .error e c'
termination_by c.rest.length
decreasing_by exact statement_length_lt _h

/-- Reads a program up to the end of the script. -/
def program : Reading Program := do
  return ⟨← statementsFrom []⟩

end Reading

/-- The program written in a script, or the first fault in it. -/
def Program.parse (source : String) : Except SyntaxError Program :=
  match Reading.program (Cursor.ofSource source) with
  | .ok p _ => .ok p
  | .error e _ => .error e

end RobotScript
