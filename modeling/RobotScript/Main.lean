import RobotScript.CommandLine.Outcome

/-!
# The command line

Reads the words of the command line and the file they name, carries the
command out and prints what it has to say.
-/

namespace RobotScript

/-- The fault behind an error of the system.  An inappropriate type is that of
a directory in place of a file, which has number 21, or the other way round. -/
def ReadFault.ofError : IO.Error → ReadFault
  | .noFileOrDirectory _ _ _ => .notFound
  | .inappropriateType _ 21 _ => .isDirectory
  | .inappropriateType _ _ _ => .notDirectory
  | e => .other (toString e)

/-- The contents of the file at a path. -/
def readFile (path : String) : IO (Except ReadFault ByteArray) := do
  try
    return .ok (← IO.FS.readBinFile path)
  catch e =>
    return .error (ReadFault.ofError e)

/-- The file that a command reads. -/
def Command.file? : Command → Option String
  | .version => none
  | .parse file => some file
  | .run file _ _ => some file

/-- Carries a command out on the files of the system. -/
def Command.carryOut (command : Command) : IO Outcome := do
  match command.file? with
  | none => return command.execute fun _ => .error .notFound
  | some file =>
    let contents ← readFile file
    return command.execute fun _ => contents

end RobotScript

open RobotScript in
/-- Runs the command that the arguments ask for. -/
def main (args : List String) : IO UInt32 := do
  match Command.ofWords? args with
  | none =>
    IO.eprintln "Usage: robodsl parse FILE | run [-s N] [-f N] FILE | --version"
    return 2
  | some command =>
    let outcome ← command.carryOut
    IO.print outcome.stdout
    IO.eprint outcome.stderr
    return outcome.code
