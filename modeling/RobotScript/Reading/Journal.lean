import RobotScript.Journal.Message
import RobotScript.Reading.Program

/-!
# Journals of reading

The productions note each loop they begin, and the production of the whole
script notes that it has succeeded.  A production takes a `loop` only to begin
a loop, so its journal can be told from the cursors before and after it.
-/

namespace RobotScript

namespace Cursor

/-- The lexemes taken between two cursors on the same script. -/
def taken (before after : Cursor) : List Lexeme :=
  before.rest.take (before.rest.length - after.rest.length)

/-- The messages about the loops begun between two cursors. -/
def loopsBegun (before after : Cursor) : List Message :=
  (before.taken after).filterMap fun lexeme =>
    if lexeme.token = .loop then some (.loopBegun lexeme.line) else none

end Cursor

namespace Reading

/-- The cursor that a reading leaves behind. -/
def cursorAfter {α : Type} : EStateM.Result SyntaxError Cursor α → Cursor
  | .ok _ c => c
  | .error _ c => c

/-- The journal of a production below the whole script. -/
def journal {α : Type} (reading : Reading α) (c : Cursor) : List Message :=
  c.loopsBegun (cursorAfter (reading c))

/-- The journal of reading a whole script. -/
def programJournal (c : Cursor) : List Message :=
  match program c with
  | .ok p c' => c.loopsBegun c' ++ [.programRead p.statements.length]
  | .error _ c' => c.loopsBegun c'

end Reading

/-- The journal of `Program.parse`. -/
def Program.parseJournal (source : String) : List Message :=
  Reading.programJournal (Cursor.ofSource source)

end RobotScript
