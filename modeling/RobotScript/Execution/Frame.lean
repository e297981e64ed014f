import RobotScript.Program.Basic

/-!
# Frames

A frame is a sequence of statements that is being walked through: that of the
program, which is walked once, or that of a loop, which starts over at its
end.  It keeps the index of the next statement, the number of passes already
completed, and whether the present pass has reached an action.  The last is
what tells a loop that can be left for good: a pass without an action can only
be followed by more of the same.

Passes are counted in 64-bit words, and behind the last word the count begins
again at zero.  It is only ever noted and compared with zero, so a frame may be
given any count and still be walked through as any other.
-/

namespace RobotScript

/-- A sequence of statements and a place in it. -/
structure Frame where
  statements : List Statement
  /-- The index of the next statement. -/
  next : Nat := 0
  /-- Whether the sequence starts over at its end. -/
  repeats : Bool
  /-- The number of completed passes, modulo the size of a word. -/
  iteration : UInt64 := 0
  /-- Whether the present pass has reached an action. -/
  productive : Bool := false
  deriving DecidableEq

namespace Frame

/-- A frame that walks through the statements once. -/
def once (statements : List Statement) : Frame :=
  { statements, repeats := false }

/-- A frame that walks through the statements over and over. -/
def repeating (statements : List Statement) : Frame :=
  { statements, repeats := true }

/-- Takes the next statement, if the present pass has one left. -/
def advance? (f : Frame) : Option (Statement × Frame) :=
  f.statements[f.next]?.map fun s => (s, { f with next := f.next + 1 })

/-- Starts the next pass. -/
def rewind (f : Frame) : Frame :=
  { f with next := 0, iteration := f.iteration + 1, productive := false }

/-- Notes that the present pass has reached an action. -/
def markProductive (f : Frame) : Frame :=
  { f with productive := true }

/-- Whether the rest of this pass, or a further one, holds an action. -/
def hasPendingAction (f : Frame) : Bool :=
  (f.statements.drop f.next).any (0 < ·.actionCount) ||
    (f.repeats && f.statements.any (0 < ·.actionCount))

/-- Whether nothing has been taken from the frame yet. -/
def isUntouched (f : Frame) : Bool :=
  f.next = 0 && f.iteration = 0

end Frame

end RobotScript
