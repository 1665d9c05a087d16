import Abacus.Emit.File
import Abacus.Machine.Fingerprint
import Abacus.Machine.Listing
import Abacus.Program

/-!
# Evaluating and printing

A runner evaluates source texts and prints what comes of them.  Values,
listings and Go files go to the output, and reports, traces and summaries
to the error output.
-/

namespace Abacus

/-- What has been printed on the output and on the error output. -/
structure Printed where
  out : Bytes := []
  err : Bytes := []
  deriving DecidableEq

namespace Printed

/-- What is printed first, then what is printed after it. -/
def append (a b : Printed) : Printed :=
  ⟨a.out ++ b.out, a.err ++ b.err⟩

instance : Append Printed := ⟨append⟩

/-- The text on the output. -/
def onOut (s : Bytes) : Printed := ⟨s, []⟩

/-- The text on the error output. -/
def onErr (s : Bytes) : Printed := ⟨[], s⟩

/-- An error message. -/
def error (message : Bytes) : Printed :=
  onErr (utf8 "Error: " ++ message ++ utf8 "\n")

/-- Reports in order. -/
def reports (ds : List Diagnostic) : Printed :=
  onErr (ds.flatMap Diagnostic.render)

end Printed

/-- How texts are evaluated and what is printed. -/
structure Runner where
  limits : Limits
  disassemble : Bool := false
  trace : Bool := false
  verbose : Bool := false
  emit : Bool := false
  deriving DecidableEq

namespace Runner

/-- The line that sums up a program. -/
def summary (name : Bytes) (p : Program) : Bytes :=
  name ++ utf8 ": " ++ p.kind.name ++ utf8 ", " ++ Bytes.ofNat p.chunk.code.length ++
    utf8 " bytes, " ++ Bytes.ofNat p.chunk.constants.length ++ utf8 " constants, fingerprint " ++
    p.chunk.shortFingerprint ++ utf8 "\n"

/-- Compiles a text and prints its warnings or why it fails, and, if wanted, the
summary and the listing of the program. -/
def compile (r : Runner) (name source : Bytes) : Printed × Option Program :=
  match Abacus.compile source r.limits with
  | .error f => (.reports ((scan source).diagnostics source ++ [f.diagnostic source]), none)
  | .ok p =>
    let warnings := Printed.reports (p.warnings.map (PlacedFault.diagnostic source))
    let summed := if r.verbose then Printed.onErr (summary name p) else {}
    let listed := if r.disassemble then Printed.onOut (p.chunk.listing name ++ utf8 "\n") else {}
    (warnings ++ summed ++ listed, some p)

/-- Prints the outcome of a run: the trace, if wanted, and the value or the
report.  Says whether there is a value. -/
def finish (r : Runner) (source : Bytes) (o : Outcome) : Printed × Bool :=
  let traced := if r.trace then Printed.onErr o.trace else {}
  match o.result with
  | .ok v => (traced ++ .onOut (v.describe ++ utf8 "\n"), true)
  | .error f => (traced ++ .reports [f.diagnostic source], false)

/-- Prints a program as a Go file.  Says whether there is one. -/
def printFile (r : Runner) (source : Bytes) (p : Program) : Printed × Bool :=
  match p.chunk.emitFile { main := true, source, stackDepth := r.limits.stackDepth } with
  | .ok file => (.onOut file.code, true)
  | .error e => (.error e.message, false)

/-- Evaluates a text or prints it as a Go file.  Says whether that succeeds. -/
def run (r : Runner) (name source : Bytes) : Printed × Bool :=
  match r.compile name source with
  | (printed, none) => (printed, false)
  | (printed, some p) =>
    let (more, ok) :=
      if r.emit then r.printFile source p else r.finish source (p.run r.limits)
    (printed ++ more, ok)

/-- Evaluates a text on a machine that may have run others before. -/
def runOn (r : Runner) (name source : Bytes) (m : Machine) : Printed × Machine :=
  match r.compile name source with
  | (printed, none) => (printed, m)
  | (printed, some p) =>
    let (o, m) := p.runOn m
    (printed ++ (r.finish source o).1, m)

end Runner

end Abacus
