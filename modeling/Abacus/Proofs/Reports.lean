import Abacus.Proofs.Typing.Stopping

/-!
# How a run that stops is reported

A run stops at a division by zero or at a full stack, and the report shows the place that
is recorded for the instruction, if there is one.

`Expr.parts` lists the expressions inside an expression in the order in which their values
are found.  An expression that has a kind stops at the first of its parts that divides an
integer by zero (`find?_parts`), and with a bounded stack it stops there or at a leaf that
finds the stack full (`evalOn_eq_eval_or_full`).  The place of a division is recorded and
that of a leaf is not (`spanAt?_leaf`), which gives the two forms of a report.
-/

namespace Abacus

/-! ## The first division by zero -/

namespace BinaryOp

/-- Operands of one kind that fits have no result just when an integer is divided by
zero. -/
theorem apply_ok_or_divides {op : BinaryOp} {v w : Value} (hkind : v.kind = w.kind)
    (hfit : op.operands.accepts v.kind = true) :
    (∃ x, op.apply v w = .ok x) ∧ ¬(op = .div ∧ w = .int 0) ∨
      op.apply v w = .error .zeroDivisor ∧ op = .div ∧ w = .int 0 := by
  rcases apply_ok_or_zeroDivisor hkind hfit with ⟨x, happly, -⟩ | ⟨happly, rfl, hv⟩
  · refine .inl ⟨⟨x, happly⟩, ?_⟩
    rintro ⟨rfl, rfl⟩
    cases v with
    | int i => cases happly
    | _ => cases hkind
  · rw [hkind] at hv
    cases w with
    | int j =>
      cases v with
      | int i =>
        by_cases hj : j = 0
        · exact .inr ⟨happly, rfl, congrArg Value.int hj⟩
        · have hok : BinaryOp.div.apply (.int i) (.int j) = .ok (.int (i / j)) := if_neg hj
          rw [hok] at happly
          cases happly
      | _ => cases hkind
    | _ => cases hv

end BinaryOp

namespace Expr

/-- The expressions inside an expression, in the order in which their values are found:
operands from left to right, then the operator. -/
def parts : Expr → List Expr
  | .leaf k v span mark => [.leaf k v span mark]
  | .unary op span mark e => e.parts ++ [.unary op span mark e]
  | .binary op span mark l r => l.parts ++ r.parts ++ [.binary op span mark l r]

/-- Whether an expression is an integer division whose divisor evaluates to zero. -/
def dividesByZero : Expr → Bool
  | .binary op _ _ _ r => op = .div && r.eval = .ok (.int 0)
  | _ => false

variable {e : Expr} {k : Kind}

/-- An expression that has a kind stops at the first of its parts that divides by zero, and
if there is none it has a value. -/
theorem find?_parts (hkind : e.typeOf = .ok k) :
    e.parts.find? dividesByZero =
      match e.eval with
      | .ok _ => none
      | .error g => some g.node := by
  induction e generalizing k with
  | leaf => rfl
  | unary op span mark e ih =>
    rw [typeOf, bind_eq_ok_iff] at hkind
    obtain ⟨j, hj, hkind⟩ := hkind
    obtain ⟨hfit, -⟩ := Typing.unaryKind_eq_ok_iff.mp hkind
    have hyields := eval_of_typeOf hj
    rw [parts, List.find?_append, ih hj, eval]
    cases heval : e.eval with
    | error g => rfl
    | ok v =>
      rw [heval] at hyields
      obtain rfl : v.kind = j := hyields
      obtain ⟨x, happly, -⟩ := UnaryOp.apply_ok hfit
      rw [mapError_ok, ok_bind, happly]
      rfl
  | binary op span mark l r ihl ihr =>
    rw [typeOf, bind_eq_ok_iff] at hkind
    obtain ⟨j, hj, hkind⟩ := hkind
    rw [bind_eq_ok_iff] at hkind
    obtain ⟨i, hi, hkind⟩ := hkind
    obtain ⟨rfl, hfit, -⟩ := Typing.binaryKind_eq_ok_iff.mp hkind
    have hleft := eval_of_typeOf hj
    have hright := eval_of_typeOf hi
    rw [parts, List.find?_append, List.find?_append, ihl hj, ihr hi, eval]
    cases hevalLeft : l.eval with
    | error g => rfl
    | ok v =>
      rw [hevalLeft] at hleft
      obtain rfl : v.kind = j := hleft
      cases hevalRight : r.eval with
      | error g => rfl
      | ok w =>
        rw [hevalRight] at hright
        rw [mapError_ok, ok_bind, mapError_ok, ok_bind, Option.none_or, Option.none_or]
        -- Both operands have values, so it is for this operator to be the first.
        rcases BinaryOp.apply_ok_or_divides (Eq.symm hright) hfit with
          ⟨⟨x, happly⟩, hnot⟩ | ⟨happly, rfl, rfl⟩
        · rw [happly]
          simp [dividesByZero, hevalRight, hnot]
        · rw [happly]
          simp [dividesByZero, hevalRight]

/-! ## Bounded stacks -/

/-- With a bounded stack an expression evaluates as without, or stops at a leaf that finds
the stack full. -/
theorem evalOn_eq_eval_or_full (capacity height : Nat) (e : Expr) :
    e.evalOn capacity height = e.eval ∨
      ∃ g, e.evalOn capacity height = .error g ∧ g.cause = .stackOverflow capacity ∧
        e.node? g.path = some g.node ∧ g.node.isLeaf = true := by
  induction e generalizing height with
  | leaf kind v span mark =>
    rw [evalOn, eval]
    by_cases hfull : capacity ≤ height
    · rw [if_pos hfull]
      exact .inr ⟨_, rfl, rfl, rfl, rfl⟩
    · rw [if_neg hfull]
      exact .inl rfl
  | unary op span mark e ih =>
    rw [evalOn, eval]
    rcases ih height with h | ⟨g, h, hg⟩
    · rw [h]
      exact .inl rfl
    · rw [h]
      exact .inr ⟨g.under .left, rfl, hg⟩
  | binary op span mark l r ihl ihr =>
    rw [evalOn, eval]
    rcases ihl height with hleft | ⟨g, hleft, hg⟩
    · rw [hleft]
      cases l.eval with
      | error f => exact .inl rfl
      | ok v =>
        rcases ihr (height + 1) with hright | ⟨g, hright, hg⟩
        · rw [hright]
          exact .inl rfl
        · rw [hright]
          exact .inr ⟨g.under .right, rfl, hg⟩
    · rw [hleft]
      exact .inr ⟨g.under .left, rfl, hg⟩

/-- No span is recorded for a leaf. -/
theorem lastSpan?_leaf {n : Expr} {path : NodePath} (h : e.node? path = some n)
    (hleaf : n.isLeaf = true) (start : Nat) :
    lastSpan? (e.locations start) (start + e.offsetOf path : Nat) = none := by
  induction e generalizing path start with
  | leaf => rfl
  | unary op span mark e ih =>
    rw [locations, lastSpan?_append, lastSpan?_singleton]
    cases path with
    | nil =>
      cases h
      cases hleaf
    | cons side path =>
      cases side with
      | left =>
        have hlt : e.offsetOf path < e.codeSize := offsetOf_lt h
        rw [offsetOf, if_neg (by simp only; omega), Option.none_or]
        exact ih h start
      | right => cases h
  | binary op span mark l r ihl ihr =>
    rw [locations, lastSpan?_append, lastSpan?_append, lastSpan?_singleton]
    cases path with
    | nil =>
      cases h
      cases hleaf
    | cons side path =>
      cases side with
      | left =>
        have hlt : l.offsetOf path < l.codeSize := offsetOf_lt h
        rw [offsetOf, if_neg (by simp only; omega), Option.none_or,
          lastSpan?_eq_none (.inl (by omega)), Option.none_or]
        exact ihl h start
      | right =>
        have hlt : r.offsetOf path < r.codeSize := offsetOf_lt h
        rw [offsetOf, if_neg (by simp only; omega), Option.none_or, ← Nat.add_assoc,
          ihr h (start + l.codeSize), Option.none_or]
        exact lastSpan?_eq_none (.inr (by omega))

theorem Generated.spanAt?_leaf {c : Chunk} {n : Expr} {path : NodePath} (hc : e.Generated c)
    (hnode : e.node? path = some n) (hleaf : n.isLeaf = true) :
    c.spanAt? (e.offsetOf path) = none := by
  have hspan := lastSpan?_leaf hnode hleaf 0
  rw [Nat.zero_add, ← hc.locations] at hspan
  exact hspan

end Expr

/-! ## Reports -/

/-- The report on a fault of the machine that runs the code of an expression. -/
structure Reports (e : Expr) (f : RuntimeFault) (d : Diagnostic) : Prop where
  kind : d.kind = .runtime
  cause : d.cause? = some (.runtime f)
  causes : f.cause = .divisionByZero ∨ ∃ depth, f.cause = .stackOverflow depth
  /-- A division by zero is shown at the first part that divides by zero. -/
  division : f.cause = .divisionByZero →
    d.message = utf8 "integer division by zero" ∧
      ∃ n, e.parts.find? Expr.dividesByZero = some n ∧ d.spans = [n.span]
  /-- A full stack is shown without a place, by the fault itself. -/
  overflow : ∀ depth, f.cause = .stackOverflow depth → d.spans = [] ∧ d.message = f.message

/-- A fault in the code of an expression that has a kind is reported at the right place. -/
theorem Expr.Generated.reports {e : Expr} {c : Chunk} {k : Kind} {m : Machine} {f : RuntimeFault}
    (hc : e.Generated c) (hkind : e.typeOf = .ok k) (hleaves : e.ProperLeaves)
    (hresult : (m.execute c).1.result = .error f) (source : Bytes) :
    Reports e f (f.diagnostic source (c.spanAt? f.offset)) := by
  have hrun := Expr.execute_generated hleaves hc m
  rw [hresult] at hrun
  rcases e.evalOn_eq_eval_or_full m.capacity 0 with heq | ⟨g, hfull, hcause, hnode, hleaf⟩
  · rw [heq] at hrun
    have hyields := Expr.eval_of_typeOf hkind
    have hfirst := Expr.find?_parts hkind
    cases heval : e.eval with
    | ok v =>
      rw [heval] at hrun
      cases hrun
    | error g =>
      rw [heval] at hrun hyields hfirst
      cases hrun
      have hzero : g.cause = .divisionByZero := hyields
      have hstop := Expr.stopsAt_of_eval heval
      rw [(hc.instruction hstop.node hstop.operator).2]
      refine ⟨rfl, rfl, .inl hzero, fun _ => ⟨?_, g.node, hfirst, rfl⟩, fun depth hfull => ?_⟩
      · show g.cause.message = _
        rw [hzero]
        rfl
      · rw [show g.cause = .stackOverflow depth from hfull] at hzero
        cases hzero
  · rw [hfull] at hrun
    cases hrun
    rw [hc.spanAt?_leaf hnode hleaf]
    refine ⟨rfl, rfl, .inr ⟨_, hcause⟩, fun hzero => ?_, fun _ _ => ⟨rfl, rfl⟩⟩
    rw [show g.cause = .divisionByZero from hzero] at hcause
    cases hcause

/-- A compiled program, with whatever stack it is run, gives a value or a report on the
fault of the machine: at the first division by zero, or without a place if the stack is
full. -/
theorem run_reports {source : Bytes} {limits : Limits} {p : Program}
    (hcompile : compile source limits = .ok p) (options : Limits) :
    ∃ e, parse source = .ok e ∧
      ((∃ v, (p.run options).result = .ok v) ∨
        ∃ f failure, ((Machine.withDepth options.stackDepth).execute p.chunk).1.result = .error f ∧
          (p.run options).result = .error failure ∧
          Reports e f (failure.diagnostic p.source)) := by
  obtain ⟨e, hparse, hkind, hgenerate⟩ := stages_of_compile hcompile
  have hleaves : e.ProperLeaves := properLeaves_of_parseTokens hparse
  have hc : e.Generated p.chunk := Expr.generated_of_generate hgenerate
  refine ⟨e, hparse, ?_⟩
  cases hresult : ((Machine.withDepth options.stackDepth).execute p.chunk).1.result with
  | ok v =>
    refine .inl ⟨v, ?_⟩
    simp only [Program.run, Program.runOn, Program.outcomeOf, hresult]
  | error f =>
    refine .inr ⟨f, .runtime f (p.chunk.spanAt? f.offset), rfl, ?_,
      hc.reports hkind hleaves hresult p.source⟩
    simp only [Program.run, Program.runOn, Program.outcomeOf, hresult]

/-- Two divisions of `1+2/(3-3)+4/0` divide by zero, and the first of them is reported.
With a stack of two values the run does not come so far: the first `3` finds it full. -/
theorem run_reports_divisions :
    let source := utf8 "1+2/(3-3)+4/0"
    let division : RuntimeFault := ⟨0x53, 9, .divisionByZero⟩
    let overflow : RuntimeFault := ⟨0x10, 4, .stackOverflow 2⟩
    ∃ p e, compile source {} = .ok p ∧ parse source = .ok e ∧
      (p.run {}).result = .error (.runtime division (some ⟨2, 8⟩)) ∧
      Reports e division (division.diagnostic source (some ⟨2, 8⟩)) ∧
      (p.run { stackDepth := 2 }).result = .error (.runtime overflow none) ∧
      Reports e overflow (overflow.diagnostic source none) := by
  intro source division overflow
  let p : Program :=
    { source, kind := .int, warnings := [],
      chunk :=
        { Chunk.empty with
          code? := some [0x10, 0, 0x10, 1, 0x10, 2, 0x10, 3, 0x51, 0x53, 0x50, 0x10, 4, 0x10, 5,
            0x53, 0x50, 0xf0]
          constants := [.int 1, .int 2, .int 3, .int 3, .int 4, .int 0]
          locations := [⟨8, ⟨5, 8⟩⟩, ⟨9, ⟨2, 8⟩⟩, ⟨10, ⟨0, 8⟩⟩, ⟨15, ⟨10, 13⟩⟩, ⟨16, ⟨0, 13⟩⟩] } }
  have hcompile : compile source {} = .ok p := by decide +kernel
  have hzero : (p.run {}).result = .error (.runtime division (some ⟨2, 8⟩)) := by decide +kernel
  have hfull : (p.run { stackDepth := 2 }).result = .error (.runtime overflow none) := by
    decide +kernel
  obtain ⟨e, hparse, hfirst⟩ := run_reports hcompile {}
  obtain ⟨e', hparse', hsecond⟩ := run_reports hcompile { stackDepth := 2 }
  obtain rfl : e = e' := Except.ok.inj (hparse.symm.trans hparse')
  refine ⟨p, e, hcompile, hparse, hzero, ?_, hfull, ?_⟩
  · rcases hfirst with ⟨v, hv⟩ | ⟨f, failure, hf, hfailure, hreports⟩
    · cases hzero.symm.trans hv
    · cases hzero.symm.trans hfailure
      rw [show ((Machine.withDepth 0).execute p.chunk).1.result = .error division by
        decide +kernel] at hf
      cases hf
      exact hreports
  · rcases hsecond with ⟨v, hv⟩ | ⟨f, failure, hf, hfailure, hreports⟩
    · cases hfull.symm.trans hv
    · cases hfull.symm.trans hfailure
      rw [show ((Machine.withDepth 2).execute p.chunk).1.result = .error overflow by
        decide +kernel] at hf
      cases hf
      exact hreports

end Abacus
