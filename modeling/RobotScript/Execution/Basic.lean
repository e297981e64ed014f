import RobotScript.Execution.Walk
import RobotScript.Robot.Basic

/-!
# Executions

An execution is a program under way: the stack of frames, the number of actions
performed and whether a refusal has stopped it for good.  Each step has the
robot perform one action and hands control back, so whoever drives it decides
when, and whether, the program goes on.

Stepping changes two things, the execution and the robot, and both keep their
changes when a step fails.  `Drive` is that shape of operation.
-/

namespace RobotScript

/-- A program under way. -/
structure Execution where
  /-- The sequences being walked through, innermost first. -/
  frames : List Frame
  /-- The number of actions performed. -/
  steps : Nat := 0
  /-- Whether a refusal has stopped the execution. -/
  halted : Bool := false
  deriving DecidableEq

/-- Why a step can fail. -/
inductive RuntimeError (ε : Type) where
  /-- The robot has refused an action after `steps` others. -/
  | refused (a : Action) (steps : Nat) (reason : ε)
  /-- An earlier refusal has stopped the execution after `steps` actions. -/
  | halted (steps : Nat)
  deriving DecidableEq, Repr

/-- The text of a runtime error. -/
def RuntimeError.message {ε : Type} [ToString ε] : RuntimeError ε → String
  | .refused a steps reason =>
    s!"actuator refused `{a.text}` after {steps} steps: {reason}"
  | .halted steps =>
    s!"execution halted after {steps} steps and cannot resume"

/-- What a step that did not fail has done. -/
inductive Step where
  /-- The robot has performed this action. -/
  | performed (a : Action)
  /-- No action is left. -/
  | finished
  deriving DecidableEq, Repr

/-- The result of a run with a budget: the actions performed in it, and
whether none is left. -/
structure RunSummary where
  steps : Nat
  finished : Bool
  deriving DecidableEq, Repr

/-- An operation on an execution and the robot it drives, which may fail. -/
abbrev Drive (σ ε : Type) := EStateM (RuntimeError ε) (Execution × σ)

namespace Execution

/-- An execution before the first statement of a program. -/
def start (p : Program) : Execution :=
  { frames := [Frame.once p.statements] }

/-- Whether no further step can perform an action. -/
def isFinished (x : Execution) : Bool :=
  !x.frames.any (·.hasPendingAction)

/-- The number of sequences being walked through. -/
def depth (x : Execution) : Nat :=
  x.frames.length

/-- Where the last action, performed or refused, stands in the program.  There
is no such place before the first step and after the last. -/
def path? (x : Execution) : Option (List Nat) :=
  if x.frames.all (·.isUntouched) then
    none
  else
    some (x.frames.reverse.map (·.next - 1))

variable {σ ε : Type}

/-- Has the robot perform the next action.  A refusal stops the execution, and
every later step fails without asking the robot.  If no action is left the
robot is not asked either. -/
def step (robot : Robot σ ε) : Drive σ ε Step := fun (x, s) =>
  if x.halted then
    .error (.halted x.steps) (x, s)
  else
    match walk x.frames with
    | none => .ok .finished ({ x with frames := [] }, s)
    | some (a, frames) =>
      match robot.attempt a s with
      | .ok _ s =>
        .ok (.performed a) ({ x with frames, steps := x.steps + 1 }, s)
      | .error reason s =>
        .error (.refused a x.steps reason)
          ({ x with frames, halted := true }, s)

/-- Steps until no action is left or the budget is used up, after `taken`
actions of the same run. -/
def runFrom (robot : Robot σ ε) (taken : Nat) : Nat → Drive σ ε RunSummary
  | 0 => fun state => .ok ⟨taken, state.1.isFinished⟩ state
  | budget + 1 => fun state =>
    match step robot state with
    | .ok (.performed _) state => runFrom robot (taken + 1) budget state
    | .ok .finished state => .ok ⟨taken, true⟩ state
    | .error e state => .error e state

/-- Steps until no action is left or `budget` actions have been performed. -/
def run (robot : Robot σ ε) (budget : Nat) : Drive σ ε RunSummary :=
  runFrom robot 0 budget

/-- Steps until no action is left and gives the number of actions performed.
A program may loop for ever, so there is a limit on the steps; the result is
`none` if it comes first. -/
def runToEnd (robot : Robot σ ε) (limit : Nat) : Drive σ ε (Option Nat) :=
  fun state => go state.1.steps limit state
where
  /-- Steps to the end of a run that began after `before` actions. -/
  go (before : Nat) : Nat → Drive σ ε (Option Nat)
    | 0 => fun state => .ok none state
    | limit + 1 => fun state =>
      match step robot state with
      | .ok (.performed _) state => go before limit state
      | .ok .finished state => .ok (some (state.1.steps - before)) state
      | .error e state => .error e state

end Execution

/-- Runs a program from its beginning to its end, within a limit on the
steps. -/
def Program.execute {σ ε : Type} (p : Program) (robot : Robot σ ε)
    (limit : Nat) : EStateM (RuntimeError ε) σ (Option Nat) := fun s =>
  match Execution.runToEnd robot limit (Execution.start p, s) with
  | .ok n (_, s) => .ok n s
  | .error e (_, s) => .error e s

end RobotScript
