import Abacus.Shell.Command

/-!
# The program

Reads what the command line asks for, runs the command, and prints and stores
what it leaves behind.
-/

namespace Abacus.Main

/-- The string of a text; bytes that form no string give the empty one. -/
def toString (s : Bytes) : String :=
  (String.fromUTF8? ⟨s.toArray⟩).getD ""

/-- All bytes of a stream behind those that have been read. -/
partial def readAll (stream : IO.FS.Stream) (read : ByteArray) : IO ByteArray := do
  let piece ← stream.read 65536
  if piece.isEmpty then return read else readAll stream (read ++ piece)

/-- The text of a file; none if it cannot be read. -/
def readFile? (path : String) : IO (Option Bytes) := do
  try return some (← IO.FS.readBinFile path).toList
  catch _ => return none

/-- Adds what stands at the given names, if anything does. -/
def addNames (t : FileTree) (ns : List Bytes) : IO FileTree := do
  let top ← IO.currentDir
  let path := top / toString (Path.ofNames ns)
  if ← path.isDir then return { t with directories := ns :: t.directories }
  else
    match ← readFile? path.toString with
    | some text => return { t with files := (ns, text) :: t.files }
    | none => return t

/-- Adds what stands at a path and around it. -/
def addPath (t : FileTree) (path : Bytes) : IO FileTree := do
  let mut t := t
  let mut ns := if Path.isAbsolute path then [] else t.cwd
  for name in Path.names path do
    if name = Path.up then ns := ns.dropLast
    else if !name.isEmpty && name ≠ Path.here then ns := ns ++ [name]
    t ← addNames t ns
  return t

/-- The path of the history. -/
def historyPath : IO String := do
  match ← IO.getEnv "HOME" with
  | some home => return toString (Path.join (utf8 home) (utf8 ".ul_history"))
  | none => return ".ul_history"

/-- What the program is given when it starts. -/
def invocation (arguments : List Bytes) : IO Invocation := do
  let cwd := Path.cleanNames (utf8 (← IO.currentDir).toString)
  let mut files : FileTree := { cwd }
  for path in Invocation.pathsRead arguments cwd do
    files ← addPath files path
  let input ←
    if Invocation.readsInput arguments then readAll (← IO.getStdin) ByteArray.empty
    else pure ByteArray.empty
  return ⟨arguments, input.toList, files, ← readFile? (← historyPath)⟩

/-- Writes a text to a stream. -/
def write (stream : IO.FS.Stream) (s : Bytes) : IO Unit := do
  stream.write ⟨s.toArray⟩
  stream.flush

/-- Stores the history; a failure is passed over. -/
def store (h : Bytes) : IO Unit := do
  try IO.FS.writeBinFile (← historyPath) ⟨h.toArray⟩
  catch _ => return

end Abacus.Main

open Abacus in
/-- Runs the program with the given arguments. -/
def main (arguments : List String) : IO UInt32 := do
  let i ← Main.invocation (arguments.map utf8)
  let f := i.run
  Main.write (← IO.getStdout) f.printed.out
  Main.write (← IO.getStderr) f.printed.err
  if f.history? ≠ i.history? then Main.store (f.history?.getD [])
  return UInt32.ofNat f.exit
