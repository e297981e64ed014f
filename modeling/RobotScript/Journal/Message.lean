import RobotScript.Action

/-!
# Journal messages

What the library notes down while it reads and runs scripts.  A message is
data with a level and a text.  The functions that do the work do not carry a
journal along; the journals are functions of their own beside them, so that a
statement about a run need not mention messages.
-/

namespace RobotScript

/-- How important a message is. -/
inductive Level where
  | debug
  | info
  | warning
  deriving DecidableEq, Repr

/-- The name of a level in a journal. -/
def Level.name : Level → String
  | .debug => "DEBUG"
  | .info => "INFO"
  | .warning => "WARN"

/-- One entry of a journal. -/
inductive Message where
  /-- The file at `path` has been read and its script is looked at next. -/
  | fileRead (path : String)
  /-- A loop that begins on `line` is being read. -/
  | loopBegun (line : Nat)
  /-- A script with this many outermost statements has been read. -/
  | programRead (statements : Nat)
  /-- The block of the innermost of `depth` sequences starts over.  Iterations
  are counted as frames count their passes. -/
  | iterationBegun (depth : Nat) (iteration : UInt64)
  /-- The innermost of `depth` sequences is a loop without actions and is
  left. -/
  | loopAbandoned (depth : Nat)
  /-- The robot has performed the action with this number. -/
  | performed (number : Nat) (a : Action)
  /-- The robot has refused an action after `steps` others. -/
  | refused (a : Action) (steps : Nat) (reason : String)
  /-- A recording robot has recorded an action. -/
  | recorded (a : Action)
  deriving DecidableEq, Repr

namespace Message

/-- The level of a message. -/
def level : Message → Level
  | .fileRead _ => .info
  | .loopBegun _ => .debug
  | .programRead _ => .debug
  | .iterationBegun _ _ => .debug
  | .loopAbandoned _ => .warning
  | .performed _ _ => .debug
  | .refused _ _ _ => .warning
  | .recorded _ => .debug

/-- The text of a message. -/
def text : Message → String
  | .fileRead path => "parsing " ++ path
  | .loopBegun line => s!"parsing loop on line {line}"
  | .programRead n => s!"parsed program with {n} top-level statements"
  | .iterationBegun depth iteration =>
    s!"loop at depth {depth} starting iteration {iteration}"
  | .loopAbandoned depth =>
    s!"abandoning loop at depth {depth} that performs no actions"
  | .performed number a => s!"step {number}: {a.text}"
  | .refused a steps reason =>
    s!"actuator refused `{a.text}` after {steps} steps: {reason}"
  | .recorded a => "recorded " ++ a.text

end Message

end RobotScript
