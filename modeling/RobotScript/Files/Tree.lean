import RobotScript.Files.Fault

/-!
# Files in memory

A file tree is a list of files and directories, each with its path below the
working directory.  The directories on the way to an entry exist with it, and
an entry replaces an earlier one with the same path.

`FileTree.read` looks a path up one name after the other, as a system does:
every name but the last has to lead to a directory, even where `.` and `..`
make the path return to a place it has passed.  Above the working directory
there are directories without any file.
-/

namespace RobotScript

/-- What can stand at a path. -/
inductive Node where
  | file (contents : ByteArray)
  | directory

/-- Files and directories in memory, the last entry first. -/
structure FileTree where
  /-- The nodes, each with the names that lead to it from the working
  directory, innermost name first. -/
  entries : List (List String × Node) := []

namespace FileTree

/-- The names of a path.  Repeated and trailing slashes leave empty names,
which stand for the directory they are met in. -/
def names (path : String) : List String :=
  path.splitOn "/"

/-- The place a path describes if every directory on the way exists, innermost
name first. -/
def place (path : String) : List String :=
  (names path).foldl
    (fun here name =>
      if name = "" ∨ name = "." then here
      else if name = ".." then here.tail
      else name :: here)
    []

/-- The tree with one more entry, which replaces an earlier one of the same
path. -/
def insert (tree : FileTree) (path : String) (node : Node) : FileTree :=
  ⟨(place path, node) :: tree.entries⟩

/-- What stands at a place: an entry, the latest one if there are several, or
a directory on the way to one.  The working directory always exists. -/
def node? (tree : FileTree) (here : List String) : Option Node :=
  match tree.entries.lookup here with
  | some node => some node
  | none =>
    if here = [] ∨ tree.entries.any (fun entry => here.isSuffixOf entry.1) then
      some .directory
    else
      none

/-- Follows names from a place; `none` is a place above the working
directory. -/
def follow (tree : FileTree) :
    Option (List String) → List String → Except ReadFault Node
  | none, [] => .ok .directory
  | none, name :: rest =>
    if name = "" ∨ name = "." ∨ name = ".." then
      tree.follow none rest
    else
      .error .notFound
  | some here, [] =>
    match tree.node? here with
    | none => .error .notFound
    | some node => .ok node
  | some here, name :: rest =>
    match tree.node? here with
    | none => .error .notFound
    | some (.file _) => .error .notDirectory
    | some .directory =>
      if name = "" ∨ name = "." then
        tree.follow (some here) rest
      else if name = ".." then
        tree.follow (if here = [] then none else some here.tail) rest
      else
        tree.follow (some (name :: here)) rest

/-- The bytes of the file at a path.  The empty path leads nowhere. -/
def read (tree : FileTree) : FileSystem := fun path =>
  if path = "" then
    .error .notFound
  else
    match tree.follow (some []) (names path) with
    | .error fault => .error fault
    | .ok .directory => .error .isDirectory
    | .ok (.file contents) => .ok contents

end FileTree

end RobotScript
