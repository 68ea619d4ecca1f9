import Multiequation.CommandLine

/-!
# Runs on files held in memory

A tree of files answers what a file system would answer, so that a run of the command line is a plain
value. A path is followed name by name from the root or the working directory. Each name needs a
directory to be looked up in, also an empty name, which stays where it is: a path that ends in a
slash leads to a directory or nowhere.
-/

namespace Multiequation.CommandLine

/-! ### Refusals -/

/-- No entry has the name. -/
def ReadError.notFound : ReadError := .system "No such file or directory" 2

/-- A name was looked up in a file. -/
def ReadError.notDirectory : ReadError := .system "Not a directory" 20

/-- The path leads to a directory, which has no bytes to read. -/
def ReadError.isDirectory : ReadError := .system "Is a directory" 21

/-- A name or the whole path is longer than the system allows. -/
def ReadError.nameTooLong : ReadError := .system "File name too long" 36

/-! ### Trees -/

/-- Files with the names that lead to each from the root. Every place on the way to a file or to the
working directory is a directory. -/
structure FileTree where
  files : List (List String × ByteArray)
  /-- The names that lead from the root to the directory where relative paths start. -/
  workingDirectory : List String

namespace FileTree

/-- The longest name, in bytes. -/
def maxNameLength : Nat := 255

/-- The longest path, in bytes. -/
def maxPathLength : Nat := 4095

/-- The bytes of the file at a place. -/
def file? (tree : FileTree) (place : List String) : Option ByteArray :=
  (tree.files.find? fun file => file.1 == place).map (·.2)

/-- Whether a place is a directory. -/
def isDirectory (tree : FileTree) (place : List String) : Bool :=
  place.isPrefixOf tree.workingDirectory ||
    tree.files.any fun file => place.isPrefixOf file.1 && file.1 != place

/-- Where a name leads from a place. -/
def enter (tree : FileTree) (place : List String) (name : String) :
    Except ReadError (List String) :=
  if !tree.isDirectory place then .error .notDirectory
  else if name = "" ∨ name = "." then .ok place
  else if name = ".." then .ok place.dropLast
  else if name.utf8ByteSize > maxNameLength then .error .nameTooLong
  else
    let next := place ++ [name]
    if (tree.file? next).isSome || tree.isDirectory next then .ok next else .error .notFound

/-- Where the names of a path lead. -/
def follow (tree : FileTree) : List String → List String → Except ReadError (List String)
  | place, [] => .ok place
  | place, name :: names => tree.enter place name >>= fun next => tree.follow next names

/-- The place where a path starts. -/
def start (tree : FileTree) (path : String) : List String :=
  if path.toList.head? = some '/' then [] else tree.workingDirectory

/-- The bytes of the file that a path leads to. -/
def read (tree : FileTree) (path : String) : Except ReadError ByteArray := do
  if path = "" then throw .notFound
  if path.utf8ByteSize > maxPathLength then throw .nameTooLong
  let place ← tree.follow (tree.start path) (path.splitOn "/")
  match tree.file? place with
  | some bytes => return bytes
  | none => throw .isDirectory

/-- The outcome of a run with the given bytes on standard input. -/
def run (tree : FileTree) (stdin : ByteArray) (args : List String) : Outcome :=
  Id.run (CommandLine.run (fun
    | none => pure (.ok stdin)
    | some path => pure (tree.read path)) args)

end FileTree

end Multiequation.CommandLine
