import Abacus.Machine.Chunk
import Abacus.Machine.Fault
import Abacus.Source.Line

/-!
# Diagnostics

A diagnostic reports a failure at one or two places of a source text.
`Diagnostic.render` shows the line of the first place with a row of carets
under it:

    type error: type mismatch
     --> line 1, column 1
      |
    1 | 2 + 3.5
      | ^---^^^
-/

namespace Abacus

/-- The stage at which a failure was found. -/
inductive DiagnosticKind where
  | lex | parse | type | capacity | runtime
  /-- A number that stands for no stage. -/
  | unknown (code : Int)
  deriving DecidableEq

namespace DiagnosticKind

/-- The kind with the given number. -/
def ofCode : Int → DiagnosticKind
  | 0 => .lex
  | 1 => .parse
  | 2 => .type
  | 3 => .capacity
  | 4 => .runtime
  | n => .unknown n

/-- The name of a kind. -/
def name : DiagnosticKind → Bytes
  | .lex => utf8 "lex error"
  | .parse => utf8 "parse error"
  | .type => utf8 "type error"
  | .capacity => utf8 "capacity error"
  | .runtime => utf8 "runtime error"
  | .unknown n => utf8 "ErrorKind(" ++ Bytes.ofInt n ++ utf8 ")"

end DiagnosticKind

/-- The failure underneath a diagnostic. -/
inductive Cause where
  | poolFull (f : PoolFull)
  | runtime (f : RuntimeFault)
  /-- A failure outside the calculator, known by its message alone. -/
  | foreign (message : Bytes)
  deriving DecidableEq

/-- The underlying failure in words. -/
def Cause.message : Cause → Bytes
  | .poolFull f => f.message
  | .runtime f => f.message
  | .foreign m => m

/-- A report of a failure. -/
structure Diagnostic where
  kind : DiagnosticKind
  message : Bytes
  spans : List Span
  /-- The place of the first span. -/
  place : Place
  cause? : Option Cause
  /-- The text that the spans belong to, if it is known. -/
  source? : Option Bytes
  deriving DecidableEq

namespace Diagnostic

/-- A report on a source text.  Without a span it stands at the start. -/
def report (kind : DiagnosticKind) (source message : Bytes) (spans : List Span) : Diagnostic :=
  let place :=
    match spans with
    | [] => ⟨1, 1⟩
    | s :: _ => source.place s.start
  ⟨kind, message, spans, place, none, some source⟩

/-- A report without a source text. -/
def bare (kind : DiagnosticKind) (message : Bytes) (spans : List Span) : Diagnostic :=
  ⟨kind, message, spans, ⟨0, 0⟩, none, none⟩

/-- A failure outside the calculator as a report. -/
def ofForeign (message : Bytes) : Diagnostic :=
  { bare .runtime message [] with cause? := some (.foreign message) }

/-- The report in one line. -/
def summary (d : Diagnostic) : Bytes :=
  utf8 "line " ++ Bytes.ofNat d.place.line ++ utf8 ": " ++ d.message

/-- The span that covers all spans of the report. -/
def cover (d : Diagnostic) : Span :=
  Span.coverAll d.spans

/-- The marks under the bytes of a line from offset `i` on, and whether one of
them is a caret.  Bytes in a span get a caret, and those between two spans a
dash.  Bytes before the first span get a blank, or a tab where the line has
one, so that the carets stand under their bytes. -/
def marks (spans : List Span) (cover : Span) : Nat → Bool → Bytes → Bytes × Bool
  | _, marked, [] => ([], marked)
  | i, marked, b :: line =>
    if spans.any fun s => s.contains i then
      let (row, marked) := marks spans cover (i + 1) true line
      (0x5e :: row, marked)
    else
      let (row, after) := marks spans cover (i + 1) marked line
      if cover.contains i && marked then (0x2d :: row, after)
      else if (i : Int) < cover.start then ((if b = 0x09 then 0x09 else 0x20) :: row, after)
      else (row, after)

/-- The row of marks under a line that starts at `start`.  Where no byte of the
line is marked, a caret stands behind it; dashes at the end are dropped. -/
def underline (d : Diagnostic) (start : Nat) (line : Bytes) : Bytes :=
  let (row, marked) := marks d.spans d.cover start false line
  let row := if marked then row else row ++ [0x5e]
  (row.reverse.dropWhile (· = 0x2d)).reverse

/-- The report with the line of its first span. -/
def render (d : Diagnostic) : Bytes :=
  let heading := d.kind.name ++ utf8 ": " ++ d.message ++ utf8 "\n"
  match d.spans, d.source? with
  | first :: _, some source =>
    let (start, stop) := source.lineBounds first.start
    let line := source.slice start stop
    let number := Bytes.ofNat d.place.line
    let margin := Bytes.copies number.length Bytes.blank
    heading ++
      margin ++ utf8 "--> line " ++ number ++ utf8 ", column " ++ Bytes.ofNat d.place.column ++
        utf8 "\n" ++
      margin ++ utf8 " |\n" ++
      number ++ utf8 " | " ++ line ++ utf8 "\n" ++
      margin ++ utf8 " | " ++ d.underline start line ++ utf8 "\n"
  | _, _ => heading

end Diagnostic

end Abacus
