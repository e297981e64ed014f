import RobotScript.Execution.Journal
import RobotScript.Files.Fault
import RobotScript.Reading.Journal

/-!
# Scripts from text and from files

The two ways in which a script reaches a robot: read and run from its text in
one go, or loaded from a file first.
-/

namespace RobotScript

/-! ## From text -/

/-- Why a script could not be run. -/
inductive RunError (ε : Type) where
  /-- It is not a script. -/
  | syntactic (e : SyntaxError)
  /-- The robot has stopped it. -/
  | runtime (e : RuntimeError ε)

/-- The text of the error, whichever it is. -/
def RunError.message {ε : Type} [ToString ε] : RunError ε → String
  | .syntactic e => e.message
  | .runtime e => e.message

/-- Reads a script and runs it until no action is left or the budget is used
up.  A faulty script does not reach the robot. -/
def runSource {σ ε : Type} (robot : Robot σ ε) (source : String)
    (budget : Nat) : EStateM (RunError ε) σ RunSummary := fun s =>
  match Program.parse source with
  | .error e => .error (.syntactic e) s
  | .ok p =>
    match Execution.run robot budget (Execution.start p, s) with
    | .ok summary (_, s) => .ok summary s
    | .error e (_, s) => .error (.runtime e) s

/-- The journal of `runSource`. -/
def runSourceJournal {σ ε : Type} [ToString ε] (robot : Robot σ ε)
    (source : String) (budget : Nat) (s : σ) : List Message :=
  Program.parseJournal source ++
    match Program.parse source with
    | .error _ => []
    | .ok p => Execution.runJournal robot budget (Execution.start p, s)

/-! ## From files -/

/-- Why a script could not be loaded. -/
inductive LoadError where
  /-- There is no file at the path. -/
  | notFound (path : String)
  /-- There is something at the path, but it cannot be read. -/
  | unreadable (path : String) (fault : ReadFault)
  /-- The file is not a script. -/
  | syntactic (e : SyntaxError)
  deriving DecidableEq, Repr

/-- The text of the error. -/
def LoadError.message : LoadError → String
  | .notFound path => "Robot program source file not found: " ++ path
  | .unreadable path fault =>
    s!"Failed to read robot program {path}: {fault.description}"
  | .syntactic e => e.message

/-- The text of the file at a path. -/
def readText (files : FileSystem) (path : String) :
    Except ReadFault String :=
  match files path with
  | .error fault => .error fault
  | .ok bytes =>
    match String.fromUTF8? bytes with
    | some text => .ok text
    | none => .error .notText

/-- Loads the program in the file at a path. -/
def Program.load (files : FileSystem) (path : String) :
    Except LoadError Program :=
  match readText files path with
  | .error .notFound => .error (.notFound path)
  | .error fault => .error (.unreadable path fault)
  | .ok text =>
    match Program.parse text with
    | .error e => .error (.syntactic e)
    | .ok p => .ok p

/-- The journal of `Program.load`. -/
def Program.loadJournal (files : FileSystem) (path : String) :
    List Message :=
  match readText files path with
  | .error _ => []
  | .ok text => .fileRead path :: Program.parseJournal text

end RobotScript
