import Abacus.Editor.Server
import Abacus.Proofs.Failing
import Abacus.Proofs.Scan.Munch
import Abacus.Shell.Command

/-!
# The front ends agree

A source text can be interpreted, evaluated from the command line, entered at the
prompt and checked in an editor.  `verdict` is what it comes to: the reports on its
scan, and then a value or one more report.  Every front end shows this verdict.

* `Runner.run_eq` and `Runner.runOn_eq`: what a runner prints of a text, on a fresh
  machine and on one that has run others.
* `Session.Fit` and `Server.Fit`: what a session and a server keep, whatever was
  entered and requested, so that the next text runs as on a fresh machine.
* `frontEnds_agree`: the front ends side by side.

A machine keeps nothing of a run but its state, and the outcome of a run depends on
its capacity alone (`Program.runOn_eq_run`); values that are left in the slots of its
stack do not matter either (`Registers.runs_runOf`).  So all that has to be carried
through a history is that the capacity, the limits and the worker stay as they were.
-/

namespace Abacus

/-! ## Verdicts -/

/-- What a source text comes to: the reports on its scan, and its value or the
report on why it has none. -/
structure Verdict where
  lexical : List Diagnostic
  result : Except Diagnostic Value

/-- The verdict on a source text. -/
def verdict (source : Bytes) (limits : Limits) : Verdict :=
  ⟨(scan source).diagnostics source,
    (interpret source limits).result.mapError (Failure.diagnostic source)⟩

namespace Verdict

/-- The report behind those on the scan: one if there is no value. -/
def last (v : Verdict) : List Diagnostic :=
  match v.result with
  | .ok _ => []
  | .error d => [d]

/-- All reports in order. -/
def diagnostics (v : Verdict) : List Diagnostic :=
  v.lexical ++ v.last

/-- The line with the value, if there is one. -/
def valueLine (v : Verdict) : Bytes :=
  match v.result with
  | .ok value => value.describe ++ utf8 "\n"
  | .error _ => []

/-- The verdict in print.  A listing goes before the value, and remarks on the
program and its run before the last report. -/
def printed (v : Verdict) (listing remarks : Bytes) : Printed :=
  ⟨listing ++ v.valueLine,
    v.lexical.flatMap Diagnostic.render ++ remarks ++ v.last.flatMap Diagnostic.render⟩

end Verdict

namespace Runner

/-- The listing of a text that compiles, where listings are wanted. -/
def listed (r : Runner) (name source : Bytes) : Bytes :=
  match Abacus.compile source r.limits with
  | .ok p => if r.disassemble then p.chunk.listing name ++ utf8 "\n" else []
  | .error _ => []

/-- The summary and the trace of a text that compiles, where they are wanted. -/
def remarks (r : Runner) (name source : Bytes) : Bytes :=
  match Abacus.compile source r.limits with
  | .ok p =>
    (if r.verbose then summary name p else []) ++ (if r.trace then (p.run r.limits).trace else [])
  | .error _ => []

/-- What the runner prints of a text when its verdict is known. -/
def shows (r : Runner) (name source : Bytes) (v : Verdict) : Printed :=
  v.printed (r.listed name source) (r.remarks name source)

end Runner

section Verdicts

variable {source : Bytes} {limits : Limits}

theorem warnings_of_compile {p : Program} (h : compile source limits = .ok p) :
    p.warnings = (scan source).faults := by
  unfold compile at h
  simp only at h
  split at h
  · cases h
  · split at h
    · cases h
    · split at h
      · cases h
      · cases h
        rfl

theorem verdict_of_compile_error {f : Failure} (h : compile source limits = .error f) :
    verdict source limits = ⟨(scan source).diagnostics source, .error (f.diagnostic source)⟩ := by
  unfold verdict interpret
  rw [h]
  rfl

theorem verdict_of_compile_ok {p : Program} (h : compile source limits = .ok p) :
    verdict source limits =
      ⟨p.warnings.map (PlacedFault.diagnostic source),
        (p.run limits).result.mapError (Failure.diagnostic source)⟩ := by
  unfold verdict interpret
  rw [h, warnings_of_compile h]
  rfl

theorem Failure.kind_diagnostic (source : Bytes) (f : Failure) :
    (f.diagnostic source).kind ∈ [DiagnosticKind.parse, .type, .capacity, .runtime] := by
  cases f with
  | parse f => exact .head _
  | type f => exact .tail _ (.head _)
  | capacity f =>
    have hkind : (f.diagnostic source).kind = .capacity := by
      cases f <;> rfl
    simp [Failure.diagnostic, hkind]
  | runtime f span? =>
    have hkind : (f.diagnostic source span?).kind = .runtime := by
      cases span? <;> rfl
    simp [Failure.diagnostic, hkind]

/-- The reports on a scan stand in the order of their places. -/
theorem pairwise_diagnostics_scan (source : Bytes) :
    ((scan source).diagnostics source).Pairwise fun d e =>
      ∀ s ∈ d.spans, ∀ t ∈ e.spans, s.start < t.start := by
  show (((pieces source).filterMap PlacedPiece.fault?).map _).Pairwise _
  rw [List.pairwise_map, List.pairwise_filterMap]
  refine (tiles_pieces source).pairwise.imp ?_
  intro p q hlt f hf g hg s hs t ht
  have hstart := PlacedPiece.fault?_start hf
  have hnext := PlacedPiece.fault?_start hg
  rw [List.mem_singleton.mp hs, List.mem_singleton.mp ht]
  omega

end Verdicts

/-! ## Runners -/

namespace Program

variable {m : Machine} {limits : Limits}

/-- The outcome of a run depends on the capacity of the machine alone. -/
theorem runOn_eq_run (p : Program) (h : m.capacity = Machine.capacityOf limits.stackDepth) :
    (p.runOn m).1 = p.run limits := by
  show outcomeOf p.chunk (p.chunk.run m.capacity) = _
  rw [h]
  rfl

end Program

attribute [ext] Printed

namespace Printed

@[simp] theorem out_append (a b : Printed) : (a ++ b).out = a.out ++ b.out := rfl

@[simp] theorem err_append (a b : Printed) : (a ++ b).err = a.err ++ b.err := rfl

@[simp] theorem append_empty (a : Printed) : a ++ ({} : Printed) = a := by
  apply Printed.ext <;> simp

@[simp] theorem out_onOut (s : Bytes) : (onOut s).out = s := rfl

@[simp] theorem err_onOut (s : Bytes) : (onOut s).err = [] := rfl

@[simp] theorem out_onErr (s : Bytes) : (onErr s).out = [] := rfl

@[simp] theorem err_onErr (s : Bytes) : (onErr s).err = s := rfl

@[simp] theorem out_reports (ds : List Diagnostic) : (reports ds).out = [] := rfl

@[simp] theorem err_reports (ds : List Diagnostic) :
    (reports ds).err = ds.flatMap Diagnostic.render := rfl

end Printed

namespace Runner

variable {r : Runner} {name source : Bytes}

theorem compile_of_error {f : Failure} (h : Abacus.compile source r.limits = .error f) :
    r.compile name source = (r.shows name source (verdict source r.limits), none) := by
  unfold compile shows listed remarks
  rw [h, verdict_of_compile_error h]
  simp [Verdict.printed, Verdict.valueLine, Verdict.last, Printed.reports, Printed.onErr]

theorem compile_of_ok {p : Program} (h : Abacus.compile source r.limits = .ok p) :
    r.compile name source = ((r.compile name source).1, some p) := by
  unfold compile
  rw [h]

theorem snd_finish (r : Runner) (source : Bytes) (o : Outcome) :
    (r.finish source o).2 = o.result.isOk := by
  unfold finish
  cases o.result <;> rfl

/-- Compiling a text and finishing its run print the verdict on it. -/
theorem compile_append_finish {p : Program} (h : Abacus.compile source r.limits = .ok p) :
    (r.compile name source).1 ++ (r.finish source (p.run r.limits)).1 =
      r.shows name source (verdict source r.limits) := by
  unfold compile finish shows listed remarks
  rw [h, verdict_of_compile_ok h]
  -- The summary is printed before the listing, but on the other output, so the two
  -- outputs are compared one by one.
  apply Printed.ext
  · cases (p.run r.limits).result <;>
      simp [Verdict.printed, Verdict.valueLine, apply_ite Printed.out]
  · cases (p.run r.limits).result <;>
      simp [Verdict.printed, Verdict.last, apply_ite Printed.err, List.flatMap_map]

/-- Evaluating a text prints its verdict and succeeds if it has a value. -/
theorem run_eq (r : Runner) (name source : Bytes) (hemit : r.emit = false) :
    r.run name source =
      (r.shows name source (verdict source r.limits), (verdict source r.limits).result.isOk) := by
  cases hcompile : Abacus.compile source r.limits with
  | error f =>
    unfold run
    rw [compile_of_error hcompile, verdict_of_compile_error hcompile]
    rfl
  | ok p =>
    unfold run
    rw [compile_of_ok hcompile]
    simp only [hemit, Bool.false_eq_true, if_false]
    rw [compile_append_finish hcompile, snd_finish, verdict_of_compile_ok hcompile]
    cases (p.run r.limits).result <;> rfl

/-- Evaluating a text on a machine of the right capacity prints its verdict, too. -/
theorem runOn_eq {m : Machine} (r : Runner) (name source : Bytes)
    (h : m.capacity = Machine.capacityOf r.limits.stackDepth) :
    (r.runOn name source m).1 = r.shows name source (verdict source r.limits) := by
  cases hcompile : Abacus.compile source r.limits with
  | error f =>
    unfold runOn
    rw [compile_of_error hcompile]
  | ok p =>
    rw [← compile_append_finish hcompile, ← p.runOn_eq_run h]
    unfold runOn
    rw [compile_of_ok hcompile]

/-- Commands only turn switches. -/
theorem limits_obey (r : Runner) (command : Bytes) : (r.obey command).runner.limits = r.limits := by
  unfold obey
  repeat' split
  all_goals rfl

theorem capacity_runOn (r : Runner) (name source : Bytes) (m : Machine) :
    (r.runOn name source m).2.capacity = m.capacity := by
  unfold runOn
  split <;> rfl

end Runner

/-! ## Sessions -/

namespace Session

/-- A session before anything was entered. -/
def start (r : Runner) (h : History) : Session :=
  ⟨r, Machine.withDepth r.limits.stackDepth, h⟩

/-- The session after some texts were entered, expressions and commands alike. -/
def enterAll (s : Session) (texts : List Bytes) : Session :=
  texts.foldl (fun s text => (s.enter text).session) s

/-- The session keeps its limits, and a machine that suits them. -/
structure Fit (limits : Limits) (s : Session) : Prop where
  limits_eq : s.runner.limits = limits
  capacity_eq : s.machine.capacity = Machine.capacityOf limits.stackDepth

variable {limits : Limits} {s : Session}

theorem Fit.enter (h : s.Fit limits) (text : Bytes) : (s.enter text).session.Fit limits := by
  simp only [Session.enter]
  split
  · exact h
  · split
    · exact ⟨(Runner.limits_obey _ _).trans h.limits_eq, h.capacity_eq⟩
    · exact ⟨h.limits_eq, (Runner.capacity_runOn _ _ _ _).trans h.capacity_eq⟩

theorem Fit.enterAll (h : s.Fit limits) (texts : List Bytes) : (s.enterAll texts).Fit limits := by
  induction texts generalizing s with
  | nil => exact h
  | cons text texts ih => exact ih (h.enter text)

theorem fit_start (r : Runner) (h : History) : (start r h).Fit r.limits := ⟨rfl, rfl⟩

theorem Fit.runOn_eq (h : s.Fit limits) (name source : Bytes) :
    (s.runner.runOn name source s.machine).1 =
      s.runner.shows name source (verdict source limits) := by
  obtain ⟨rfl, hcapacity⟩ := h
  exact s.runner.runOn_eq name source hcapacity

end Session

/-! ## Servers -/

namespace Server

/-- What an editor can ask for that may change the server, short of shutting it down. -/
inductive Request where
  | check (text : Bytes)
  | update (uri text : Bytes)
  | change (uri : Bytes) (changes : List Change)
  | close (uri : Bytes)
  | hover (uri : Bytes) (p : Position)

/-- The server after a request. -/
def serve (s : Server) : Request → Server
  | .check text => (s.check text).2
  | .update uri text => (s.update uri text).2
  | .change uri changes => (s.change uri changes).2
  | .close uri => (s.close uri).2
  | .hover uri p => (s.hover uri p).2

/-- The server after some requests. -/
def serveAll (s : Server) (requests : List Request) : Server :=
  requests.foldl serve s

/-- The server keeps its limits, and a worker with a machine that suits them. -/
structure Fit (limits : Limits) (s : Server) : Prop where
  limits_eq : s.limits = limits
  capacity_eq : s.worker.machine.capacity = Machine.capacityOf limits.stackDepth
  not_stopped : s.worker.stopped = false

variable {limits : Limits} {s : Server}

theorem fit_start (limits : Limits) : (start limits).Fit limits := ⟨rfl, rfl, rfl⟩

/-- A server that is fit checks a text as its verdict says, and stays fit. -/
theorem Fit.check (h : s.Fit limits) (text : Bytes) :
    (s.check text).1.value? = (verdict text limits).result.toOption ∧
      (s.check text).1.diagnostics = (verdict text limits).diagnostics ∧
      (s.check text).2.Fit limits := by
  obtain ⟨rfl, hcapacity, hstopped⟩ := h
  cases hcompile : compile text s.limits with
  | error f =>
    unfold Server.check
    rw [hcompile, verdict_of_compile_error hcompile]
    exact ⟨rfl, rfl, rfl, hcapacity, hstopped⟩
  | ok p =>
    -- The worker has not been stopped, and its machine is as good as a fresh one.
    have hjob : s.worker.perform (runJob p) =
        (.ok (p.run s.limits), { s.worker with machine := (p.runOn s.worker.machine).2 }) := by
      simp [Worker.perform, hstopped, runJob, p.runOn_eq_run hcapacity]
    have hfit : ({ s with worker := { s.worker with machine := (p.runOn s.worker.machine).2 } } :
        Server).Fit s.limits := ⟨rfl, hcapacity, hstopped⟩
    unfold Server.check
    rw [hcompile, verdict_of_compile_ok hcompile]
    simp only [hjob]
    cases hresult : (p.run s.limits).result with
    | ok v => exact ⟨rfl, (List.append_nil _).symm, hfit⟩
    | error f => exact ⟨rfl, rfl, hfit⟩

theorem Fit.update (h : s.Fit limits) (uri text : Bytes) : (s.update uri text).2.Fit limits :=
  have hkeep : (s.keep uri text).Fit limits := ⟨h.limits_eq, h.capacity_eq, h.not_stopped⟩
  (hkeep.check text).2.2

theorem Fit.change (h : s.Fit limits) (uri : Bytes) (changes : List Change) :
    (s.change uri changes).2.Fit limits := by
  unfold Server.change
  split
  · split
    · exact h
    · exact h.update uri _
  · exact h

theorem Fit.hover (h : s.Fit limits) (uri : Bytes) (p : Position) :
    (s.hover uri p).2.Fit limits := by
  unfold Server.hover hoverText
  split
  · split
    · exact h
    · exact (h.check _).2.2
  · exact h

theorem Fit.serve (h : s.Fit limits) (request : Request) : (s.serve request).Fit limits := by
  cases request with
  | check text => exact (h.check text).2.2
  | update uri text => exact h.update uri text
  | change uri changes => exact h.change uri changes
  | close uri => exact ⟨h.limits_eq, h.capacity_eq, h.not_stopped⟩
  | hover uri p => exact h.hover uri p

theorem Fit.serveAll (h : s.Fit limits) (requests : List Request) :
    (s.serveAll requests).Fit limits := by
  induction requests generalizing s with
  | nil => exact h
  | cons request requests ih => exact ih (h.serve request)

end Server

/-! ## Command lines -/

/-- The command line evaluates one text: it gives the text and neither a file nor
another task. -/
structure Invocation.Evaluates (i : Invocation) (source : Bytes) (limits : Limits) (f : Flags)
    (s : Settings) : Prop where
  parsed : Flags.parse i.arguments = .ok (f, [])
  settled : i.settings f = .ok s
  limits_eq : s.limits = limits
  expression_eq : f.expression = source
  nonempty : source ≠ []
  not_emit : f.emit = false
  not_serve : f.serve = false

namespace Invocation

variable {i : Invocation} {source : Bytes} {limits : Limits} {f : Flags} {s : Settings}

/-- The program prints the verdict and then, if there is a value, starts the prompt
where that is wanted. -/
theorem Evaluates.run_eq (h : i.Evaluates source limits f s) :
    let v := verdict source limits
    let shown := (runner f s).shows (utf8 "-e") source v
    i.run =
      if v.result.isOk then
        if f.interactive then i.prompt (runner f s) i.input shown else i.finish 0 shown
      else i.finish 1 shown := by
  intro v shown
  obtain ⟨hparsed, hsettled, rfl, rfl, hnonempty, hemit, hserve⟩ := h
  have hexpression : f.expression.isEmpty = false := by simpa using hnonempty
  have htask : i.task f [] = .ok (some ⟨utf8 "-e", f.expression⟩, i.input) := by
    simp [task, hexpression]
  have hevaluate : i.run = i.evaluate (runner f s) f [] := by
    simp [run, hparsed, hsettled, perform, hserve]
  have hrun : (runner f s).run (utf8 "-e") f.expression = (shown, v.result.isOk) :=
    Runner.run_eq (runner f s) (utf8 "-e") f.expression hemit
  rw [hevaluate, evaluate, htask]
  simp only [hrun]
  cases v.result.isOk <;> rfl

end Invocation

/-! ## All front ends -/

/-- A verdict on a source text is what all front ends show of it. -/
structure FrontEndsAgree (source : Bytes) (limits : Limits) (v : Verdict) : Prop where
  /-- First come the reports on the scan, in the order of their places. -/
  lexical_eq : v.lexical = (scan source).diagnostics source
  lexical_kind : ∀ d ∈ v.lexical, d.kind = .lex
  lexical_ordered : v.lexical.Pairwise fun d e =>
    ∀ s ∈ d.spans, ∀ t ∈ e.spans, s.start < t.start
  /-- Then comes the value, or one more report. -/
  interpret_eq : v.result = (interpret source limits).result.mapError (Failure.diagnostic source)
  last_kind : ∀ d, v.result = .error d →
    d.kind ∈ [DiagnosticKind.parse, .type, .capacity, .runtime]
  run_eq : ∀ (r : Runner) (name : Bytes), r.limits = limits → r.emit = false →
    r.run name source = (r.shows name source v, v.result.isOk)
  /-- It does not matter what was entered in the session before. -/
  runOn_eq : ∀ (r : Runner) (h : History) (texts : List Bytes) (name : Bytes), r.limits = limits →
    let s := (Session.start r h).enterAll texts
    (s.runner.runOn name source s.machine).1 = s.runner.shows name source v
  /-- Neither does it matter what was requested from the server before. -/
  check_eq : ∀ requests : List Server.Request,
    let c := (((Server.start limits).serveAll requests).check source).1
    c.value? = v.result.toOption ∧ c.diagnostics = v.diagnostics
  /-- The program ends with 0 for a value and with 1 for a failure.  Only behind a
  value, and when asked to, it prints more than the verdict. -/
  command_eq : ∀ (i : Invocation) (f : Flags) (s : Settings), i.Evaluates source limits f s →
    i.run.exit = (if v.result.isOk then 0 else 1) ∧
      ∃ more, i.run.printed = (Invocation.runner f s).shows (utf8 "-e") source v ++ more ∧
        (v.result.isOk = false ∨ f.interactive = false → more = {})

/-- All front ends show the same verdict on a source text. -/
theorem frontEnds_agree (source : Bytes) (limits : Limits) :
    FrontEndsAgree source limits (verdict source limits) where
  lexical_eq := rfl
  lexical_kind := by
    intro d hd
    obtain ⟨f, -, rfl⟩ := List.mem_map.mp hd
    rfl
  lexical_ordered := pairwise_diagnostics_scan source
  interpret_eq := rfl
  last_kind := by
    intro d hd
    obtain ⟨f, -, rfl⟩ := mapError_eq_error_iff.mp hd
    exact f.kind_diagnostic source
  run_eq := by
    rintro r name rfl hemit
    exact r.run_eq name source hemit
  runOn_eq := by
    rintro r h texts name rfl s
    exact ((Session.fit_start r h).enterAll texts).runOn_eq name source
  check_eq := by
    intro requests c
    have hcheck := ((Server.fit_start limits).serveAll requests).check source
    exact ⟨hcheck.1, hcheck.2.1⟩
  command_eq := by
    intro i f s h
    rw [h.run_eq]
    cases hok : (verdict source limits).result.isOk with
    | false => exact ⟨rfl, {}, (Printed.append_empty _).symm, fun _ => rfl⟩
    | true =>
      cases hinteractive : f.interactive with
      | false => exact ⟨rfl, {}, (Printed.append_empty _).symm, fun _ => rfl⟩
      | true => exact ⟨rfl, _, rfl, fun h => by simp at h⟩

/-- After a division by zero, at the prompt and in the editor, `1+2` is still 3. -/
theorem frontEnds_agree_after_fault :
    let source := utf8 "1+2"
    let limits : Limits := ⟨256, 0, 256⟩
    let texts := [utf8 "1/0", utf8 ":dis", utf8 ":dis"]
    let session := (Session.start ⟨limits, false, false, false, false⟩ []).enterAll texts
    let requests : List Server.Request :=
      [.update (utf8 "a.ul") (utf8 "1/0"), .hover (utf8 "a.ul") ⟨0, 0⟩]
    let check := (((Server.start limits).serveAll requests).check source).1
    let finished := Invocation.run { arguments := [utf8 "-e", source] }
    (session.runner.runOn (utf8 "repl") source session.machine).1 = .onOut (utf8 "3 (int)\n") ∧
      (check.value? = some (.int 3) ∧ check.diagnostics = []) ∧
      finished.exit = 0 ∧ finished.printed = .onOut (utf8 "3 (int)\n") := by
  intro source limits texts session requests check finished
  have hagree := frontEnds_agree source limits
  have hresult : (verdict source limits).result = .ok (.int 3) := by decide +kernel
  have hrunOn := hagree.runOn_eq ⟨limits, false, false, false, false⟩ [] texts (utf8 "repl") rfl
  have hcheck := hagree.check_eq requests
  have hevaluates : Invocation.Evaluates { arguments := [utf8 "-e", source] } source limits
      { expression := source } {} :=
    ⟨by decide +kernel, by decide +kernel, rfl, rfl, by decide, rfl, rfl⟩
  obtain ⟨hexit, more, hprinted, hmore⟩ := hagree.command_eq _ _ _ hevaluates
  rw [hmore (.inr rfl), Printed.append_empty] at hprinted
  rw [hresult] at hcheck hexit
  refine ⟨hrunOn.trans (by decide +kernel), ⟨hcheck.1, hcheck.2.trans (by decide +kernel)⟩,
    hexit, hprinted.trans (by decide +kernel)⟩

end Abacus
