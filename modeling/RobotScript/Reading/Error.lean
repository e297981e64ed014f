/-!
# Syntax errors

Reading a script stops at the first fault.  The error names its cause, the
line, and the tokens that follow, so that a user can find the place.
-/

namespace RobotScript

/-- What is wrong with a script. -/
inductive SyntaxFault where
  /-- Something required is not there; `expected` describes it. -/
  | missing (expected : String)
  /-- A block is closed before its first statement. -/
  | emptyBlock
  /-- What follows cannot begin a statement. -/
  | invalidStatement
  /-- More than `limit` loops are open at once. -/
  | tooDeep (limit : Nat)
  deriving DecidableEq, Repr

/-- A fault, the tokens that follow it and the line it was found on. -/
structure SyntaxError where
  fault : SyntaxFault
  /-- The next tokens, separated by blanks; empty at the end of the script. -/
  context : String
  line : Nat
  deriving DecidableEq, Repr

/-- The fault in words. -/
def SyntaxFault.description : SyntaxFault → String
  | .missing expected => "missing " ++ expected
  | .emptyBlock => "empty block, a block needs at least one statement"
  | .invalidStatement => "invalid statement, expected `loop` or an action"
  | .tooDeep limit => s!"loops nested deeper than {limit} levels"

namespace SyntaxError

/-- Where the error is, told by the tokens that follow. -/
def place (e : SyntaxError) : String :=
  if e.context.isEmpty then "end of input" else s!"... {e.context} ..."

/-- The text shown to the user, in two lines. -/
def message (e : SyntaxError) : String :=
  s!"Error on line {e.line}: {e.fault.description}.\n   @ {e.place}"

end SyntaxError

end RobotScript
