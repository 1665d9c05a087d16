import Mathlib.Data.List.Forall2
import Abacus.Emit.Body
import Abacus.Proofs.Machine.Stepping
import Abacus.Proofs.Operands

/-!
# Function bodies and runs

The body of a chunk is found by a walk over its code that knows the kinds of
the values and not the values.  This file compares the walk with the machine.
`Foretells` says what a walk tells about a run: a fault of the walk is the fault
of the run, and a body tells the kind of the value.  A division by zero, which
the walk cannot see, may end the run before.

`Abstracts` relates the locals of the walk to the stack of the machine: there is
one local for each value, and it has the value's kind.  The two walks stay
related from one instruction to the next (`ofCode_foretells_run`), because both
fetch the same bytes and the operators depend on the kinds alone.
-/

namespace Abacus

/-- The locals stand for the values of a stack, kind by kind. -/
def Abstracts (slots : List Slot) (s : Stack) : Prop :=
  List.Forall₂ (fun slot v => slot.kind = v.kind) slots s

/-- What the outcome of a walk over the kinds tells about the result of a run. -/
def Foretells (walk : Except RuntimeFault Body) (result : Except RuntimeFault Value) : Prop :=
  match walk with
  | .error f =>
    result = .error f ∨
      ∃ g, result = .error g ∧ g.cause = .divisionByZero ∧ g.offset < f.offset
  | .ok body =>
    (∃ v, result = .ok v ∧ v.kind = body.kind) ∨
      ∃ g, result = .error g ∧ g.cause = .divisionByZero

namespace Foretells

/-- A fault foretells itself. -/
theorem fault (f : RuntimeFault) : Foretells (.error f) (.error f) :=
  .inl rfl

/-- Statements in front of a body change neither its kind nor a fault. -/
theorem before {walk : Except RuntimeFault Body} {result : Except RuntimeFault Value}
    (statements : List Statement) (h : Foretells walk result) :
    Foretells (Body.before statements walk) result := by
  cases walk with
  | error f => exact h
  | ok body => exact h

/-- A division by zero may come before anything that a later walk finds. -/
theorem ofZeroDivisor {walk : Except RuntimeFault Body} {g : RuntimeFault}
    (hcause : g.cause = .divisionByZero) (hlater : ∀ f, walk = .error f → g.offset < f.offset) :
    Foretells walk (.error g) := by
  cases walk with
  | error f => exact .inr ⟨g, rfl, hcause, hlater f rfl⟩
  | ok body => exact .inr ⟨g, rfl, hcause⟩

end Foretells

/-! ## Room on the stack -/

/-- A walk and a machine of the same depth find the stack full together. -/
theorem isFull_iff {depth : Int} (hdepth : 0 < depth) {slots : List Slot} {s : Stack}
    (habs : Abstracts slots s) : Body.isFull depth slots = true ↔ depth.toNat ≤ s.length := by
  have hlength : slots.length = s.length := List.Forall₂.length_eq habs
  simp only [Body.isFull, Bool.and_eq_true, decide_eq_true_eq]
  omega

/-- After an operand has been taken there is room for a result, so the walk never
leaves one out. -/
theorem isFull_eq_false {depth : Int} {slots : List Slot}
    (hroom : 0 < depth → slots.length < depth.toNat) : Body.isFull depth slots = false := by
  simp only [Body.isFull, Bool.and_eq_false_iff, decide_eq_false_iff_not]
  omega

/-! ## The walk -/

@[simp, grind =] theorem Body.before_eq_error_iff {statements : List Statement}
    {walk : Except RuntimeFault Body} {f : RuntimeFault} :
    Body.before statements walk = .error f ↔ walk = .error f := by
  cases walk with
  | error g => rfl
  | ok body => simp [Body.before]

/-- A walk that starts at an offset reports no fault before it. -/
theorem offset_le_of_ofCode_error {pool : List Value} {depth : Int} {offset next : Nat}
    {slots : List Slot} {code : Bytes} {f : RuntimeFault}
    (h : Body.ofCode pool depth offset next slots code = .error f) : offset ≤ f.offset := by
  fun_induction Body.ofCode pool depth offset next slots code with
  | _ => grind

/-- The walk over the kinds and the run agree from every related pair of stacks
on.  The induction follows the walk. -/
theorem ofCode_foretells_run {pool : List Value} {depth : Int} (hdepth : 0 < depth)
    (offset next : Nat) (slots : List Slot) (code : Bytes) (s : Stack)
    (habs : Abstracts slots s) (hroom : slots.length ≤ depth.toNat) :
    Foretells (Body.ofCode pool depth offset next slots code)
      (runFrom pool depth.toNat offset s code).result := by
  fun_induction Body.ofCode pool depth offset next slots code generalizing s with
  | case1 offset next slots =>
    rw [runFrom_nil]
    exact .fault _
  | case2 offset next slots b rest fault hop =>
    rw [runFrom_unknown hop]
    exact .fault _
  | case3 offset next slots b fault hop =>
    rw [runFrom_truncated hop]
    exact .fault _
  | case4 offset next slots b fault hop index rest hindex =>
    rw [runFrom_badConstant hop hindex]
    exact .fault _
  | case5 offset next slots b fault hop index rest v hindex hfull =>
    rw [runFrom_const_full hop hindex ((isFull_iff hdepth habs).mp hfull)]
    exact .fault _
  | case6 offset next slots b hop index rest v hindex hfull ih =>
    rw [isFull_iff hdepth habs] at hfull
    have hlength : slots.length = s.length := List.Forall₂.length_eq habs
    rw [runFrom_const hop hindex (by omega)]
    exact .before _ (ih _ (.cons rfl habs) (by simp; omega))
  | case7 offset next slots b rest fault t hop hfull =>
    rw [runFrom_truth_full hop ((isFull_iff hdepth habs).mp hfull)]
    exact .fault _
  | case8 offset next slots b rest t hop hfull ih =>
    rw [isFull_iff hdepth habs] at hfull
    have hlength : slots.length = s.length := List.Forall₂.length_eq habs
    rw [runFrom_truth hop (by omega)]
    exact .before _ (ih _ (.cons rfl habs) (by simp; omega))
  | case9 offset next b rest fault op hop =>
    cases habs
    rw [runFrom_unary_underflow hop]
    exact .fault _
  | case10 offset next b rest op hop a slots hfit hfull ih =>
    have hempty : Body.isFull depth slots = false := isFull_eq_false fun _ => hroom
    rw [hempty] at hfull
    cases hfull
  | case11 offset next b rest op hop a slots hfit hfull ih =>
    obtain _ | ⟨hkind, habs⟩ := habs
    rw [hkind] at hfit
    obtain ⟨r, happly, hresult⟩ := UnaryOp.apply_ok hfit
    rw [runFrom_unary hop happly]
    exact .before _ (ih _ (.cons (by rw [hresult, hkind]) habs) hroom)
  | case12 offset next b rest fault op hop a slots hfit =>
    obtain _ | ⟨hkind, habs⟩ := habs
    rw [hkind] at hfit ⊢
    rw [runFrom_unary_error hop (UnaryOp.apply_mismatch (by simpa using hfit))]
    exact .fault _
  | case13 offset next b rest op hop r l slots hfit _ ih =>
    obtain _ | ⟨hright, _ | ⟨hleft, habs⟩⟩ := habs
    rename_i w s v
    simp only [Body.operandsFit, hleft, hright, Bool.and_eq_true, decide_eq_true_eq] at hfit
    have hless : slots.length + 2 ≤ depth.toNat := hroom
    have hempty : Body.isFull depth slots = false := isFull_eq_false fun _ => by omega
    rw [hempty]
    refine .before _ (.before _ ?_)
    obtain ⟨x, happly, hresult⟩ | ⟨happly, -, -⟩ :=
      BinaryOp.apply_ok_or_zeroDivisor hfit.1 hfit.2
    · rw [runFrom_binary hop happly]
      exact ih _ (.cons (by rw [hresult, hleft]) habs) (by simp; omega)
    · -- The division faults here, and whatever the walk still finds lies behind it.
      rw [runFrom_binary_error hop happly]
      refine .ofZeroDivisor rfl fun f hf => ?_
      have hlater := offset_le_of_ofCode_error hf
      exact hlater
  | case14 offset next b rest fault op hop r l slots hfit =>
    obtain _ | ⟨hright, _ | ⟨hleft, habs⟩⟩ := habs
    simp only [Body.operandsFit, hleft, hright, Bool.and_eq_true, decide_eq_true_eq] at hfit
    rw [runFrom_binary_error hop (BinaryOp.apply_mismatch hfit), hleft, hright]
    exact .fault _
  | case15 offset next slots b rest fault op hop hshort =>
    have hlength : slots.length = s.length := List.Forall₂.length_eq habs
    have hless : slots.length < 2 := by
      match slots, hshort with
      | [], _ => simp
      | [a], _ => simp
      | r :: l :: slots, hshort => exact absurd rfl (hshort r l slots)
    rw [runFrom_binary_underflow hop (by omega)]
    exact .fault _
  | case16 offset next b rest fault hop =>
    cases habs
    rw [runFrom_return hop]
    exact .fault _
  | case17 offset next b rest hop a slots =>
    obtain _ | ⟨hkind, habs⟩ := habs
    rename_i v s
    rw [runFrom_return hop]
    exact .inl ⟨v, rfl, hkind.symm⟩

/-! ## Chunks -/

/-- The walk over a chunk agrees with every machine of its depth.  A fault of the
walk is the fault of the run, unless an integer division by zero ends the run at
a smaller offset; when the walk finds a body, the run gives a value of the
body's kind or ends with a division by zero. -/
theorem execute_agrees_with_body (c : Chunk) {depth : Int} (hdepth : 0 < depth) (m : Machine)
    (hcapacity : (m.capacity : Int) = depth) :
    (∀ f, c.body depth = .error f →
      (m.execute c).1.result = .error f ∨
        ∃ g, (m.execute c).1.result = .error g ∧ g.cause = .divisionByZero ∧
          g.offset < f.offset) ∧
    (∀ body, c.body depth = .ok body →
      (∃ v, (m.execute c).1.result = .ok v ∧ v.kind = body.kind) ∨
        ∃ g, (m.execute c).1.result = .error g ∧ g.cause = .divisionByZero) := by
  have hm : m.capacity = depth.toNat := by omega
  have htold : Foretells (c.body depth) (m.execute c).1.result := by
    rw [Machine.execute_result, hm]
    exact ofCode_foretells_run hdepth 0 0 [] c.code [] .nil (Nat.zero_le _)
  constructor
  · intro f hf
    rw [hf] at htold
    exact htold
  · intro body hbody
    rw [hbody] at htold
    exact htold

/-- A chunk that divides by zero in front of a byte that is no instruction: the
walk finds the byte, and the run ends before it. -/
theorem execute_agrees_with_body_division :
    let c : Chunk :=
      { Chunk.empty with
        code? := some [0x10, 0x00, 0x10, 0x01, 0x53, 0xff]
        constants := [.int 1, .int 0] }
    let m := Machine.withDepth 2
    (0 : Int) < 2 ∧ (m.capacity : Int) = 2 ∧
      c.body 2 = .error ⟨0xff, 5, .unknownOpcode 0xff⟩ ∧
      ((m.execute c).1.result = .error ⟨0xff, 5, .unknownOpcode 0xff⟩ ∨
        ∃ g, (m.execute c).1.result = .error g ∧ g.cause = .divisionByZero ∧ g.offset < 5) := by
  intro c m
  have hbody : c.body 2 = .error ⟨0xff, 5, .unknownOpcode 0xff⟩ := by decide
  exact ⟨by decide, by decide, hbody,
    (execute_agrees_with_body c (by decide) m (by decide)).1 _ hbody⟩

end Abacus
