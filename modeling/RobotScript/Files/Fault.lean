/-!
# Read faults

Why the contents of a file cannot be had.  A missing file is told apart from
every other reason, since a missing script is reported in words of its own.
-/

namespace RobotScript

/-- Why a file cannot be read. -/
inductive ReadFault where
  /-- There is nothing at the path. -/
  | notFound
  /-- There is a directory at the path. -/
  | isDirectory
  /-- The path goes through something that is not a directory. -/
  | notDirectory
  /-- The contents are not text in UTF-8. -/
  | notText
  /-- Any other reason, in the words of the system. -/
  | other (reason : String)
  deriving DecidableEq, Repr

/-- The fault in words. -/
def ReadFault.description : ReadFault → String
  | .notFound => "No such file or directory (os error 2)"
  | .isDirectory => "Is a directory (os error 21)"
  | .notDirectory => "Not a directory (os error 20)"
  | .notText => "stream did not contain valid UTF-8"
  | .other reason => reason

/-- How files are read: the bytes at a path, or why there are none. -/
abbrev FileSystem := String → Except ReadFault ByteArray

end RobotScript
