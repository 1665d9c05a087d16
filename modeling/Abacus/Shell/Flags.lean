import Abacus.Text.Quoted

/-!
# The options of a command line

An option starts with one or two dashes.  A switch is on when it is named, and
takes a value only behind an equals sign.  Any other option takes its value
from there or from the next argument.  Options end at the first argument that
is none, at a single dash, which is an argument of its own, and behind a double
dash.  Where an option is given twice the last one counts.
-/

namespace Abacus

/-- The options that a command line can give. -/
structure Flags where
  /-- The text to evaluate; empty when there is none. -/
  expression : Bytes := []
  /-- The path of the settings file; empty when it is to be looked for. -/
  config : Bytes := []
  interactive : Bool := false
  disassemble : Bool := false
  trace : Bool := false
  /-- Whether to print the expression as a Go file. -/
  emit : Bool := false
  /-- Whether to serve editors. -/
  serve : Bool := false
  verbose : Bool := false
  deriving DecidableEq

/-- Why a command line is refused. -/
inductive FlagError where
  /-- The options were asked for. -/
  | help
  /-- The argument names no option. -/
  | badForm (argument : Bytes)
  | unknown (name : Bytes)
  | noValue (name : Bytes)
  | notBoolean (name value : Bytes)
  deriving DecidableEq

namespace FlagError

/-- The error in words; a request for help is none. -/
def message : FlagError → Bytes
  | .help => []
  | .badForm argument => utf8 "bad flag syntax: " ++ argument ++ utf8 "\n"
  | .unknown name => utf8 "flag provided but not defined: -" ++ name ++ utf8 "\n"
  | .noValue name => utf8 "flag needs an argument: -" ++ name ++ utf8 "\n"
  | .notBoolean name value =>
    utf8 "invalid boolean value " ++ quoteText value ++ utf8 " for -" ++ name ++
      utf8 ": parse error\n"

end FlagError

/-- An argument by its form. -/
inductive Argument where
  /-- The first one behind the options. -/
  | plain
  /-- The double dash that ends the options. -/
  | stop
  /-- An option, with its value where an equals sign follows the name. -/
  | option (name : Bytes) (value? : Option Bytes)
  | malformed
  deriving DecidableEq

namespace Argument

/-- The option of the text behind the dashes. -/
def ofName (s : Bytes) : Argument :=
  match s with
  | [] => .malformed
  | b :: _ =>
    if b = 0x2d ∨ b = 0x3d then .malformed
    else
      let name : Bytes := s.takeWhile (· ≠ 0x3d)
      match s.drop name.length with
      | [] => .option name none
      | _ :: value => .option name (some value)

/-- The form of an argument. -/
def ofText : Bytes → Argument
  | [0x2d, 0x2d] => .stop
  | 0x2d :: 0x2d :: s => ofName s
  | 0x2d :: b :: s => ofName (b :: s)
  | _ => .plain

end Argument

/-- What an option sets: a switch, or something with a value. -/
inductive FlagKind where
  | switch (set : Bool → Flags → Flags)
  | valued (set : Bytes → Flags → Flags)

namespace Flags

/-- The options by name. -/
def byName : List (String × FlagKind) :=
  [("config", .valued fun v f => { f with config := v }),
    ("d", .switch fun b f => { f with disassemble := b }),
    ("e", .valued fun v f => { f with expression := v }),
    ("emit-go", .switch fun b f => { f with emit := b }),
    ("i", .switch fun b f => { f with interactive := b }),
    ("lsp", .switch fun b f => { f with serve := b }),
    ("trace", .switch fun b f => { f with trace := b }),
    ("v", .switch fun b f => { f with verbose := b })]

/-- What the option with the given name sets. -/
def kind? (name : Bytes) : Option FlagKind :=
  (byName.find? fun o => utf8 o.1 = name).map (·.2)

/-- The truth value that a text denotes. -/
def boolean? (s : Bytes) : Option Bool :=
  if ["1", "t", "T", "TRUE", "true", "True"].any fun w => utf8 w = s then some true
  else if ["0", "f", "F", "FALSE", "false", "False"].any fun w => utf8 w = s then some false
  else none

/-- The error for a name that is no option. -/
def nameError (name : Bytes) : FlagError :=
  if name = utf8 "help" ∨ name = utf8 "h" then .help else .unknown name

/-- Reads the options at the front of the arguments; the other arguments are
given with them. -/
def parseFrom (f : Flags) : List Bytes → Except FlagError (Flags × List Bytes)
  | [] => .ok (f, [])
  | a :: rest =>
    match Argument.ofText a with
    | .plain => .ok (f, a :: rest)
    | .stop => .ok (f, rest)
    | .malformed => .error (.badForm a)
    | .option name value? =>
      match kind? name, value? with
      | none, _ => .error (nameError name)
      | some (.switch set), none => parseFrom (set true f) rest
      | some (.switch set), some v =>
        match boolean? v with
        | some b => parseFrom (set b f) rest
        | none => .error (.notBoolean name v)
      | some (.valued set), some v => parseFrom (set v f) rest
      | some (.valued set), none =>
        match rest with
        | v :: rest => parseFrom (set v f) rest
        | [] => .error (.noValue name)

/-- Reads the options of a command line. -/
def parse (arguments : List Bytes) : Except FlagError (Flags × List Bytes) :=
  parseFrom {} arguments

/-- The description of the options. -/
def usage : Bytes :=
  utf8 "Usage: ul [options] [file]\n\n" ++
  utf8 "Compiles a ul expression to bytecode and runs it.\n\n" ++
  utf8 "Options:\n" ++
  utf8 "  -config string\n" ++
  utf8 "    \tPath to ul.toml (default: search upward from the working directory)\n" ++
  utf8 "  -d\tPrint the bytecode listing before running\n" ++
  utf8 "  -e string\n" ++
  utf8 "    \tEvaluate the given expression\n" ++
  utf8 "  -emit-go\n" ++
  utf8 "    \tPrint the expression compiled to a Go program instead of running it\n" ++
  utf8 "  -i\tStart interactive REPL\n" ++
  utf8 "  -lsp\n" ++
  utf8 "    \tStart language server on stdio\n" ++
  utf8 "  -trace\n" ++
  utf8 "    \tTrace VM instructions to stderr\n" ++
  utf8 "  -v\tVerbose output\n" ++
  utf8 "\nExamples:\n" ++
  utf8 "  ul calc.ul              # Run the expression in calc.ul\n" ++
  utf8 "  ul -e '2 + 3'           # Prints 5 (int)\n" ++
  utf8 "  ul -d -e '1.5 * 2.0'    # Disassemble, then run\n" ++
  utf8 "  ul -emit-go calc.ul     # Print an equivalent Go program\n" ++
  utf8 "  ul -i                   # Start REPL\n" ++
  utf8 "  ul -lsp                 # Serve editors over stdio\n"

end Flags

end Abacus
