import Abacus.Files.Path

/-!
# Files

The files that the program can see: a tree of directories and the directory in
which it runs.  A path is followed name by name, so that `a/../b` is missing
when `a` is.  What goes wrong is reported in the words of the operating system.
-/

namespace Abacus

/-- Why a file cannot be read. -/
inductive FileError where
  | missing
  | notDirectory
  | isDirectory
  /-- A path with a zero byte is refused. -/
  | invalid
  | nameTooLong
  deriving DecidableEq

/-- The error in words. -/
def FileError.message (path : Bytes) : FileError → Bytes
  | .missing => utf8 "open " ++ path ++ utf8 ": no such file or directory"
  | .notDirectory => utf8 "open " ++ path ++ utf8 ": not a directory"
  | .isDirectory => utf8 "read " ++ path ++ utf8 ": is a directory"
  | .invalid => utf8 "open " ++ path ++ utf8 ": invalid argument"
  | .nameTooLong => utf8 "open " ++ path ++ utf8 ": file name too long"

/-- The files and directories below the top, each by its names from there, and
the names of the directory in which the program runs.  The directories around a
file or directory need not be listed. -/
structure FileTree where
  files : List (List Bytes × Bytes) := []
  directories : List (List Bytes) := []
  cwd : List Bytes := []
  deriving DecidableEq

namespace FileTree

/-- The longest name of a file. -/
def maxName : Nat := 255

/-- The longest path. -/
def maxPath : Nat := 4095

/-- Whether a directory stands at the given names. -/
def isDirectory (t : FileTree) (ns : List Bytes) : Bool :=
  ns.isEmpty || ns.isPrefixOf t.cwd || t.directories.any (ns.isPrefixOf ·) ||
    t.files.any fun f => ns.isPrefixOf f.1 && ns ≠ f.1

/-- Whether anything stands at the given names. -/
def isPresent (t : FileTree) (ns : List Bytes) : Bool :=
  t.isDirectory ns || (t.files.lookup ns).isSome

/-- Follows the names of a path from where `ns` leads. -/
def follow (t : FileTree) (ns : List Bytes) : List Bytes → Except FileError (List Bytes)
  | [] => .ok ns
  | name :: path =>
    if !t.isDirectory ns then .error .notDirectory
    else if name.isEmpty ∨ name = Path.here then follow t ns path
    else if name = Path.up then follow t ns.dropLast path
    else if name.length > maxName then .error .nameTooLong
    else if t.isPresent (ns ++ [name]) then follow t (ns ++ [name]) path
    else .error .missing

/-- The names of what stands at a path. -/
def find (t : FileTree) (path : Bytes) : Except FileError (List Bytes) :=
  if path.isEmpty then .error .missing
  else if path.contains 0 then .error .invalid
  else if path.length > maxPath then .error .nameTooLong
  else t.follow (if Path.isAbsolute path then [] else t.cwd) (Path.names path)

/-- Whether anything stands at a path. -/
def hasPath (t : FileTree) (path : Bytes) : Bool :=
  match t.find path with
  | .ok _ => true
  | .error _ => false

/-- The text of the file at a path. -/
def read (t : FileTree) (path : Bytes) : Except FileError Bytes := do
  let ns ← t.find path
  match t.files.lookup ns with
  | some text => .ok text
  | none => .error .isDirectory

/-- The path seen from the top. -/
def absolute (t : FileTree) (path : Bytes) : Bytes :=
  Path.absolute (Path.ofNames t.cwd) path

end FileTree

end Abacus
