import RobotScript.Program.Basic

/-!
# Canonical text

A program is written with one action, one `loop {` or one `}` per line, four
blanks deep for each loop around it.  A `nop` leaves no trace.  The lines are
joined by line feeds without one at the end, so the text of an empty program
is empty and no text ends in a blank.
-/

namespace RobotScript

/-- The blanks in front of a line inside `depth` loops. -/
def indent (depth : Nat) : String :=
  String.ofList (List.replicate (4 * depth) ' ')

namespace Statement

mutual

/-- The lines of a statement inside `depth` loops. -/
def lines (depth : Nat) : Statement → List String
  | .action a => [indent depth ++ a.text]
  | .loop first rest =>
    (indent depth ++ "loop \x7b") ::
      (first.lines (depth + 1) ++ linesList (depth + 1) rest ++
        [indent depth ++ "\x7d"])
  | .nop => []

/-- The lines of a list of statements inside `depth` loops. -/
def linesList (depth : Nat) : List Statement → List String
  | [] => []
  | s :: rest => s.lines depth ++ linesList depth rest

end

/-- The canonical text of a statement on its own. -/
def render (s : Statement) : String :=
  "\n".intercalate (s.lines 0)

end Statement

/-- The canonical text of a program. -/
def Program.render (p : Program) : String :=
  "\n".intercalate (Statement.linesList 0 p.statements)

end RobotScript
