import Abacus.Settings.Load
import Abacus.Shell.Flags
import Abacus.Shell.Prompt

/-!
# The command

What the program does for a command line: it reads the options and the
settings, evaluates a text or a file, and starts the prompt if that is asked for
or nothing else is to be done.
-/

namespace Abacus

/-- What the program is given when it starts. -/
structure Invocation where
  arguments : List Bytes
  input : Bytes := []
  files : FileTree := {}
  /-- The history of earlier sessions, if there is one. -/
  history? : Option Bytes := none
  deriving DecidableEq

/-- What the program leaves behind. -/
structure Finished where
  exit : Nat
  printed : Printed := {}
  history? : Option Bytes := none
  deriving DecidableEq

namespace Invocation

/-- The settings that the options name, or the nearest ones, or the defaults. -/
def settings (i : Invocation) (f : Flags) : Except SettingsError Settings :=
  if f.config.isEmpty then do
    return (← Settings.findAndLoad i.files Path.here).getD {}
  else Settings.loadFile i.files f.config

/-- The runner that options and settings ask for. -/
def runner (f : Flags) (s : Settings) : Runner :=
  ⟨s.limits, f.disassemble || s.disassemble, f.trace || s.trace, f.verbose, f.emit⟩

/-- What is to be evaluated: its name and its text. -/
structure Task where
  name : Bytes
  source : Bytes
  deriving DecidableEq

/-- The name of the input as a file. -/
def inputName : Bytes := utf8 "-"

/-- The text to evaluate, if there is one, and the input that is left.  A single
dash stands for all of the input. -/
def task (i : Invocation) (f : Flags) (paths : List Bytes) :
    Except Bytes (Option Task × Bytes) :=
  if f.expression.isEmpty then
    match paths with
    | [] => .ok (none, i.input)
    | path :: _ =>
      if path = inputName then .ok (some ⟨path, i.input⟩, [])
      else
        match i.files.read path with
        | .ok source => .ok (some ⟨path, source⟩, i.input)
        | .error e => .error (e.message path)
  else .ok (some ⟨utf8 "-e", f.expression⟩, i.input)

/-- Ends without a session at the prompt, so that the history stays as it is. -/
def finish (i : Invocation) (exit : Nat) (printed : Printed) : Finished :=
  ⟨exit, printed, i.history?⟩

/-- Starts the prompt after what was printed before. -/
def prompt (i : Invocation) (r : Runner) (input : Bytes) (before : Printed) : Finished :=
  let (printed, h) := Session.run r (History.ofText (i.history?.getD [])) input
  ⟨0, before ++ printed, some h.text⟩

/-- Evaluates what is to be evaluated and starts the prompt where it is wanted. -/
def evaluate (i : Invocation) (r : Runner) (f : Flags) (paths : List Bytes) : Finished :=
  match i.task f paths with
  | .error message => i.finish 1 (.error message)
  | .ok (none, input) => i.prompt r input {}
  | .ok (some t, input) =>
    match r.run t.name t.source with
    | (printed, false) => i.finish 1 printed
    | (printed, true) =>
      if f.interactive then i.prompt r input printed else i.finish 0 printed

/-- Runs the program with its options and settings.  Serving editors prints
nothing here. -/
def perform (i : Invocation) (f : Flags) (s : Settings) (paths : List Bytes) : Finished :=
  if f.serve then i.finish 0 {}
  else if paths.length > 1 then
    i.finish 2 (.error (utf8 "expected at most one file, got " ++ Bytes.ofNat paths.length))
  else if !f.expression.isEmpty && !paths.isEmpty then
    i.finish 2 (.error (utf8 "-e and a file are mutually exclusive"))
  else i.evaluate (runner f s) f paths

/-- Runs the program. -/
def run (i : Invocation) : Finished :=
  match Flags.parse i.arguments with
  | .error e => i.finish (if e = .help then 0 else 2) (.onErr (e.message ++ Flags.usage))
  | .ok (f, paths) =>
    match i.settings f with
    | .error e => i.finish 1 (.error e.message)
    | .ok s => i.perform f s paths

/-! ## What has to be read -/

/-- The paths that a command line may read, for someone in the directory with
the given names. -/
def pathsRead (arguments : List Bytes) (cwd : List Bytes) : List Bytes :=
  match Flags.parse arguments with
  | .error _ => []
  | .ok (f, paths) =>
    let settings :=
      if f.config.isEmpty then (Settings.searchPath cwd).map fun d => Path.join d settingsName
      else [f.config]
    settings ++ paths

/-- Whether a command line reads the input. -/
def readsInput (arguments : List Bytes) : Bool :=
  match Flags.parse arguments with
  | .error _ => false
  | .ok (f, paths) =>
    !f.serve && (f.interactive || paths.contains inputName ||
      f.expression.isEmpty && paths.isEmpty)

end Invocation

end Abacus
