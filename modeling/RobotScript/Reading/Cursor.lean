import RobotScript.Reading.Error
import RobotScript.Token.Lexeme

/-!
# Cursors

A cursor is a place in the lexemes of a script.  It looks one token ahead and
never steps back.  It also remembers the line of the last token taken, so that
an error at the end of the script has a line, and how many blocks are open,
because blocks may only be nested so deep.

A `Reading` takes a cursor and gives a result or a syntax error; either way it
leaves a cursor behind.  After an error the cursor stands where the fault was
found: what was taken stays taken, and blocks that were opened stay open.
-/

namespace RobotScript

/-- A place in the lexemes of a script. -/
structure Cursor where
  /-- The lexemes not yet taken. -/
  rest : List Lexeme
  /-- The line of the last lexeme taken; 1 before the first. -/
  line : Nat := 1
  /-- The number of open blocks. -/
  depth : Nat := 0
  deriving DecidableEq, Repr

/-- A step of reading: moves the cursor and gives a result, or a syntax error
with the cursor where it was found. -/
abbrev Reading := EStateM SyntaxError Cursor

/-- The number of blocks that may be open at once. -/
def maxDepth : Nat := 256

/-- The number of tokens that an error shows. -/
def contextLength : Nat := 5

namespace Cursor

/-- A cursor before the first lexeme of a script. -/
def ofSource (source : String) : Cursor :=
  ⟨Lexeme.split source, 1, 0⟩

/-- The next token, which is not taken. -/
def peek? (c : Cursor) : Option Token :=
  c.rest.head?.map (·.token)

/-- Takes the next token.  At the end of the script nothing changes. -/
def next? (c : Cursor) : Option Token × Cursor :=
  match c.rest with
  | [] => (none, c)
  | lexeme :: rest =>
    (some lexeme.token, { c with rest := rest, line := lexeme.line })

/-- The line a fault found here is reported on: that of the next token, or of
the last one if there is no next. -/
def currentLine (c : Cursor) : Nat :=
  match c.rest with
  | [] => c.line
  | lexeme :: _ => lexeme.line

/-- The next few tokens, separated by blanks. -/
def context (c : Cursor) : String :=
  " ".intercalate ((c.rest.take contextLength).map (·.token.text))

/-- The error for a fault found here. -/
def error (c : Cursor) (fault : SyntaxFault) : SyntaxError :=
  ⟨fault, c.context, c.currentLine⟩

/-- Closes the innermost open block, if there is one. -/
def leaveBlock (c : Cursor) : Cursor :=
  { c with depth := c.depth - 1 }

end Cursor

namespace Reading

/-- Stops with a fault found here. -/
def fail {α : Type} (fault : SyntaxFault) : Reading α := fun c =>
  .error (c.error fault) c

/-- Takes the next token if it is `expected` and tells whether it was. -/
def accept (expected : Token) : Reading Bool := fun c =>
  match c.rest with
  | [] => .ok false c
  | lexeme :: rest =>
    if lexeme.token = expected then
      .ok true { c with rest := rest, line := lexeme.line }
    else
      .ok false c

/-- Takes the next token, which has to be `expected`; otherwise nothing is
taken and the error names the token in quotes. -/
def require (expected : Token) : Reading Unit := do
  unless ← accept expected do
    fail (.missing s!"'{expected.text}'")

/-- Opens a block.  The depth stays as it was if there are too many already. -/
def enterBlock : Reading Unit := fun c =>
  if maxDepth ≤ c.depth then
    fail (.tooDeep maxDepth) c
  else
    .ok () { c with depth := c.depth + 1 }

end Reading

end RobotScript
