import Abacus.Emit.Body
import Abacus.Emit.Comment
import Abacus.Emit.Identifier
import Abacus.Text.Quoted

/-!
# Go files

The file that an expression becomes: a package with one function that
computes the value, and, if asked for, a main function that prints it.

The package name and the options are checked first, then the code is turned
into statements, then the names and the comment are checked, and last the types.
-/

namespace Abacus

/-- What file to write. -/
structure EmitOptions where
  /-- The package; `main` when empty. -/
  package : Bytes := []
  /-- The function; `Eval` when empty. -/
  function : Bytes := []
  /-- Whether to add a main function. -/
  main : Bool := false
  /-- The text that the comment quotes. -/
  source : Bytes := []
  /-- The depth of stack that the code must fit into; unbounded when not positive. -/
  stackDepth : Int := 0
  /-- Whether to check the types of the file. -/
  validate : Bool := false
  deriving DecidableEq

/-- Something wrong with the types of a file. -/
structure ValidationError where
  line : Int
  /-- The function around the error; empty when there is none. -/
  function : Bytes
  message : Bytes
  deriving DecidableEq

namespace ValidationError

/-- The error as a line of a report on the named file. -/
def text (file : Bytes) (e : ValidationError) : Bytes :=
  let place :=
    if e.function.isEmpty || e.function = utf8 "<package>" then []
    else e.function ++ utf8 ": "
  utf8 "  " ++ file ++ utf8 ":" ++ Bytes.ofInt e.line ++ utf8 ": " ++ place ++ e.message ++
    utf8 "\n"

/-- The report on the errors of the named file. -/
def report (file : Bytes) (es : List ValidationError) : Bytes :=
  es.flatMap (text file)

end ValidationError

/-- Why no file is written. -/
inductive EmitError where
  /-- A main function was asked for in another package. -/
  | mainOutside (package : Bytes)
  /-- The code faults on every run. -/
  | fault (f : RuntimeFault)
  /-- A name or the comment cannot be written. -/
  | unwritable
  /-- The types are wrong. -/
  | invalid (file : Bytes) (errors : List ValidationError)
  deriving DecidableEq

/-- The error in words. -/
def EmitError.message : EmitError → Bytes
  | .mainOutside package => utf8 "codegen: func main requires package main, not " ++ quoteText package
  | .fault f => f.message
  | .unwritable => utf8 "render"
  | .invalid file errors =>
    utf8 "codegen: generated code does not type-check:\n" ++ ValidationError.report file errors

/-- A written file and the kind of the function's result. -/
structure EmittedFile where
  code : Bytes
  kind : Kind
  deriving DecidableEq

namespace Emit

/-- The type of a kind's values; that of an untagged value is `bool`. -/
def typeName : Kind → Bytes
  | .int => utf8 "int32"
  | .float => utf8 "float32"
  | .bool | .untagged => utf8 "bool"

/-- The packages that the file imports, in order. -/
def imports (body : Body) (main : Bool) : List Bytes :=
  (if body.statements.any Statement.needsErrors then [utf8 "errors"] else []) ++
    (if main then [utf8 "fmt"] else []) ++
    (if body.statements.any Statement.needsMath then [utf8 "math"] else []) ++
    (if main then [utf8 "os"] else [])

/-- The import lines with a blank line behind them. -/
def importText : List Bytes → Bytes
  | [] => []
  | [name] => utf8 "import \"" ++ name ++ utf8 "\"\n\n"
  | names =>
    utf8 "import (\n" ++ names.flatMap (fun name => utf8 "\t\"" ++ name ++ utf8 "\"\n") ++
      utf8 ")\n\n"

/-- All lines before the comment. -/
def headText (package : Bytes) (names : List Bytes) : Bytes :=
  utf8 "// Code generated by ul. DO NOT EDIT.\n\npackage " ++ package ++ utf8 "\n\n" ++
    importText names

/-- The comment above the function; there is none for a blank source. -/
def commentText (function source : Bytes) : Bytes :=
  let quoted := Comment.collapse source
  if quoted.isEmpty then []
  else utf8 "// " ++ Comment.curl (function ++ utf8 " evaluates " ++ quoted) ++ utf8 "\n"

/-- The function that computes the value. -/
def functionText (function : Bytes) (body : Body) : Bytes :=
  utf8 "func " ++ function ++ utf8 "() (result " ++ typeName body.kind ++ utf8 ", err error) \x7b\n" ++
    body.statements.flatMap Statement.text ++ utf8 "\x7d\n"

/-- The main function, which prints the value and its kind. -/
def mainText (function : Bytes) (kind : Kind) : Bytes :=
  utf8 "func main() \x7b\n\tv, err := " ++ function ++ utf8 "()\n\tif err != nil \x7b\n" ++
    utf8 "\t\tfmt.Fprintf(os.Stderr, \"Error: %v\\n\", err)\n\t\tos.Exit(1)\n\t\x7d\n" ++
    utf8 "\tfmt.Printf(\"%v (" ++ kind.name ++ utf8 ")\\n\", v)\n\x7d\n"

/-- What the type checker says about the file: a function named `init`, or
`main` in the package `main`, may have no result.  Clashes with names that the
file itself uses are left out: a type checker also refuses a function that is
called `int32`, `error`, `nil` or `true` where the file needs that name, or like
a package that it imports. -/
def typeErrors (package function : Bytes) (line : Nat) : List ValidationError :=
  if function = utf8 "init" ∨ function = utf8 "main" ∧ package = utf8 "main" then
    [⟨line, function, utf8 "func " ++ function ++
      utf8 " must have no arguments and no return values"⟩]
  else []

/-- A name, or the default when it is empty. -/
def orDefault (name : Bytes) (default : String) : Bytes :=
  if name.isEmpty then utf8 default else name

end Emit

/-- The file that a chunk becomes. -/
def Chunk.emitFile (c : Chunk) (options : EmitOptions) : Except EmitError EmittedFile :=
  let package := Emit.orDefault options.package "main"
  let function := Emit.orDefault options.function "Eval"
  if options.main ∧ package ≠ utf8 "main" then .error (.mainOutside package)
  else
    match c.body options.stackDepth with
    | .error f => .error (.fault f)
    | .ok body =>
      if !isGoPackageName package || !isGoName function ||
          !Comment.isWritableText (Comment.collapse options.source) then .error .unwritable
      else
        let head := Emit.headText package (Emit.imports body options.main) ++
          Emit.commentText function options.source
        let main := if options.main then Emit.mainText function body.kind else []
        let code := head ++ Emit.functionText function body ++ main
        let errors :=
          if options.validate then
            Emit.typeErrors package function (head.count Bytes.newline + 1)
          else []
        if errors.isEmpty then .ok ⟨code, body.kind⟩
        else .error (.invalid (function ++ utf8 ".go") errors)

end Abacus
