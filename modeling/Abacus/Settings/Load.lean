import Abacus.Files.Tree
import Abacus.Settings.Decode

/-!
# Settings from a file

The settings of a project stand in a file `ul.toml` in its directory or in one
above it.  A file is refused when it cannot be read, is no document, gives a
value of the wrong kind, holds unknown keys, or sets something out of its
range.  These are checked in this order.
-/

namespace Abacus

/-- The name of a settings file. -/
def settingsName : Bytes := utf8 "ul.toml"

/-- Why a settings file is refused. -/
inductive SettingsError where
  | unreadable (path : Bytes) (e : FileError)
  /-- The text is no document, or a value has the wrong kind. -/
  | malformed (path : Bytes)
  | unknownKeys (path : Bytes) (keys : List Toml.Key)
  | outOfRange (path : Bytes) (f : SettingFault)
  deriving DecidableEq

/-- The error in words. -/
def SettingsError.message : SettingsError → Bytes
  | .unreadable path e => utf8 "cannot read " ++ path ++ utf8 ": " ++ e.message path
  | .malformed _ => utf8 "toml"
  | .unknownKeys path keys =>
    utf8 "unknown keys in " ++ path ++ utf8 ": " ++
      Bytes.join (utf8 ", ") (keys.map Toml.keyText)
  | .outOfRange path f => utf8 "invalid " ++ path ++ utf8 ": " ++ f.message

namespace Settings

/-- The settings that a text gives; `path` is the path of its file. -/
def ofText (path text : Bytes) : Except SettingsError Settings :=
  match Toml.Document.ofText? text with
  | none => .error (.malformed path)
  | some d =>
    match ofDocument? d with
    | none => .error (.malformed path)
    | some s =>
      if (unknownKeys d).isEmpty then
        match s.fault? with
        | some f => .error (.outOfRange path f)
        | none => .ok s
      else .error (.unknownKeys path (unknownKeys d))

/-- The settings of the file at a path. -/
def loadFile (t : FileTree) (path : Bytes) : Except SettingsError Settings :=
  match t.read path with
  | .error e => .error (.unreadable path e)
  | .ok text => do
    let s ← ofText path text
    return { s with directory := t.absolute (Path.directory path) }

/-- The settings of the file in a directory. -/
def load (t : FileTree) (directory : Bytes) : Except SettingsError Settings :=
  loadFile t (Path.join directory settingsName)

/-- The directories in which settings are looked for: the one with the given
names and all above it, up to the top. -/
def searchPath (ns : List Bytes) : List Bytes :=
  ((List.range (ns.length + 1)).map fun n => Path.ofNames (ns.take n)).reverse

/-- The settings of the nearest file in or above a directory, if there is one. -/
def findAndLoad (t : FileTree) (directory : Bytes) : Except SettingsError (Option Settings) :=
  let start := Path.cleanNames (t.absolute directory)
  match (searchPath start).find? fun d => t.hasPath (Path.join d settingsName) with
  | none => .ok none
  | some d => (load t d).map some

end Settings

end Abacus
