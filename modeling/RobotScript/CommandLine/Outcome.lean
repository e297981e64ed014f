import RobotScript.CommandLine.Command
import RobotScript.Program.Render
import RobotScript.Robot.Recorder
import RobotScript.Script

/-!
# Carrying commands out

A command ends with an exit code and what it has printed on the two output
channels.  Files are read through a `FileSystem`, so that a command is a plain
function of it.

The exit codes are 0 for success, 1 for a script with a syntax error, 2 for a
script that cannot be read and 3 for a robot that has refused an action.
-/

namespace RobotScript

/-- The end of a command. -/
structure Outcome where
  code : UInt32
  stdout : String := ""
  stderr : String := ""
  deriving DecidableEq, Repr

namespace Outcome

/-- The end of a command that did what it was asked for. -/
def success (output : String) : Outcome :=
  { code := 0, stdout := output }

/-- The end of a command whose script could not be loaded. -/
def ofLoadError (e : LoadError) : Outcome :=
  { code :=
      match e with
      | .syntactic _ => 1
      | .notFound _ => 2
      | .unreadable _ _ => 2
    stderr := e.message ++ "\n" }

end Outcome

namespace Command

/-- The line that tells of an action performed: its number and its keyword. -/
def actionLine (number : Nat) (a : Action) : String :=
  alignRight 5 (toString number) ++ "  " ++ a.keyword ++ "\n"

/-- The recording robot of a run: with a full tank, if a size is given. -/
def recorder (fuel : Option UInt32) : Recorder :=
  ⟨#[], fuel.map FuelTank.full⟩

/-- Steps an execution until no action is left or the budget is used up and
tells of every action, behind the lines printed before.  A refusal ends the
command with an error. -/
def tell (lines : Array String) : Nat → Execution × Recorder → Outcome
  | 0, _ => Outcome.success (String.join lines.toList)
  | budget + 1, state =>
    match Execution.step Recorder.robot state with
    | .ok (.performed a) state =>
      tell (lines.push (actionLine state.1.steps a)) budget state
    | .ok .finished _ => Outcome.success (String.join lines.toList)
    | .error e _ =>
      { code := 3
        stdout := String.join lines.toList
        stderr := e.message ++ "\n" }

/-- Carries a command out. -/
def execute (files : FileSystem) : Command → Outcome
  | .version => Outcome.success "robodsl 0.1.0\n"
  | .parse file =>
    match Program.load files file with
    | .error e => Outcome.ofLoadError e
    | .ok p => Outcome.success (p.render ++ "\n")
  | .run file steps fuel =>
    match Program.load files file with
    | .error e => Outcome.ofLoadError e
    | .ok p => tell #[] steps (Execution.start p, recorder fuel)

end Command

end RobotScript
