import Abacus.Generate
import Abacus.Machine.Run
import Abacus.Source.Diagnostic
import Abacus.Tree.Parse
import Abacus.Typing

/-!
# Programs

Compiling a source text and running the result.  Compiling scans, parses, finds
the kinds and generates code; the first of these that fails ends it.  Faults of
the scan are only warnings.

`interpret` compiles and runs a text; `Program.runOn` runs a program on a
machine that may have run others before.
-/

namespace Abacus

/-- Why a source text gives no value. -/
inductive Failure where
  | parse (f : ParseFault)
  | type (f : TypeFault)
  | capacity (f : CapacityFault)
  /-- The machine stopped; the span of the instruction is given if it is known. -/
  | runtime (f : RuntimeFault) (span? : Option Span)
  deriving DecidableEq

/-- A fault of the scan as a report. -/
def PlacedFault.diagnostic (source : Bytes) (f : PlacedFault) : Diagnostic :=
  .report .lex source f.fault.message [f.span]

/-- The reports on the faults of a scan. -/
def Scanned.diagnostics (source : Bytes) (s : Scanned) : List Diagnostic :=
  s.faults.map (PlacedFault.diagnostic source)

/-- A parse fault as a report. -/
def ParseFault.diagnostic (source : Bytes) (f : ParseFault) : Diagnostic :=
  .report .parse source (f.message source) [f.span]

/-- A type fault as a report. -/
def TypeFault.diagnostic (source : Bytes) (f : TypeFault) : Diagnostic :=
  .report .type source f.message f.spans

/-- A capacity fault as a report. -/
def CapacityFault.diagnostic (source : Bytes) (f : CapacityFault) : Diagnostic :=
  let d := Diagnostic.report .capacity source f.message f.spans
  match f with
  | .constants full _ => { d with cause? := some (.poolFull full) }
  | _ => d

/-- A fault of the machine as a report.  With a span it is worded for the reader
of the source, and otherwise for the reader of the code. -/
def RuntimeFault.diagnostic (source : Bytes) (f : RuntimeFault) (span? : Option Span) :
    Diagnostic :=
  let d :=
    match span? with
    | some span => Diagnostic.report .runtime source f.cause.message [span]
    | none => Diagnostic.report .runtime source f.message []
  { d with cause? := some (.runtime f) }

/-- A failure as a report. -/
def Failure.diagnostic (source : Bytes) : Failure → Diagnostic
  | .parse f => f.diagnostic source
  | .type f => f.diagnostic source
  | .capacity f => f.diagnostic source
  | .runtime f span? => f.diagnostic source span?

/-- A compiled source text. -/
structure Program where
  source : Bytes
  chunk : Chunk
  /-- The kind that the value will have. -/
  kind : Kind
  /-- The faults of the scan. -/
  warnings : List PlacedFault
  deriving DecidableEq

/-- Compiles a source text. -/
def compile (source : Bytes) (limits : Limits) : Except Failure Program :=
  let scanned := scan source
  match parseTreeTokens source scanned.tokens with
  | .error f => .error (.parse f)
  | .ok tree =>
    match tree.typing.result with
    | .error f => .error (.type f)
    | .ok kind =>
      match tree.generate limits with
      | .error f => .error (.capacity f)
      | .ok chunk => .ok ⟨source, chunk, kind, scanned.faults⟩

/-- The outcome of a run: the trace of its instructions and its value. -/
structure Outcome where
  trace : Bytes
  result : Except Failure Value

namespace Program

/-- Adds the source span to the fault of a run. -/
def outcomeOf (chunk : Chunk) (e : Execution) : Outcome :=
  let result :=
    match e.result with
    | .ok v => .ok v
    | .error f => .error (.runtime f (chunk.spanAt? f.offset))
  ⟨e.traceText, result⟩

/-- Runs a program on a machine. -/
def runOn (p : Program) (m : Machine) : Outcome × Machine :=
  let (e, m) := m.execute p.chunk
  (outcomeOf p.chunk e, m)

/-- Runs a program on a fresh machine. -/
def run (p : Program) (limits : Limits) : Outcome :=
  (p.runOn (Machine.withDepth limits.stackDepth)).1

end Program

/-- Compiles a source text and runs it. -/
def interpret (source : Bytes) (limits : Limits) : Outcome :=
  match compile source limits with
  | .error f => ⟨[], .error f⟩
  | .ok p => p.run limits

end Abacus
