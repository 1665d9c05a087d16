import Abacus.Text.Bytes

/-!
# Paths

Paths as texts, with slashes between their names.  Everything here looks at the
text alone: a name `..` takes away the name before it, whether or not that is a
directory.
-/

namespace Abacus.Path

/-- The byte between two names. -/
def slash : UInt8 := 0x2f

/-- The name of the directory itself. -/
def here : Bytes := utf8 "."

/-- The name of the parent. -/
def up : Bytes := utf8 ".."

/-- Whether a path starts at the top. -/
def isAbsolute (path : Bytes) : Bool :=
  path.head? = some slash

/-- The names of a path, empty ones included. -/
def names (path : Bytes) : List Bytes :=
  path.splitOn slash

/-- Adds a name to a path whose last name stands first.  At the top there is no
way up; elsewhere a way up that leads out of the path is kept. -/
def addName (top : Bool) (back : List Bytes) (name : Bytes) : List Bytes :=
  if name.isEmpty ∨ name = here then back
  else if name = up then
    match back with
    | [] => if top then [] else [up]
    | last :: rest => if last = up then up :: back else rest
  else name :: back

/-- The names that are left of a path without its detours. -/
def cleanNames (path : Bytes) : List Bytes :=
  ((names path).foldl (addName (isAbsolute path)) []).reverse

/-- The absolute path with the given names. -/
def ofNames (ns : List Bytes) : Bytes :=
  slash :: Bytes.join [slash] ns

/-- The shortest path that says the same. -/
def clean (path : Bytes) : Bytes :=
  let ns := cleanNames path
  if isAbsolute path then ofNames ns
  else if ns.isEmpty then here
  else Bytes.join [slash] ns

/-- The path of a name in a directory. -/
def join (dir name : Bytes) : Bytes :=
  clean (if dir.isEmpty then name else dir ++ slash :: name)

/-- The directory of a path. -/
def directory (path : Bytes) : Bytes :=
  clean (path.take (path.length - (Bytes.afterLast slash path).length))

/-- The path seen from the top, for someone in the directory `cwd`. -/
def absolute (cwd path : Bytes) : Bytes :=
  if isAbsolute path then clean path else join cwd path

end Abacus.Path
