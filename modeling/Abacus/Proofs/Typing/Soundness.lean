import Abacus.Proofs.Generate.Correctness
import Abacus.Proofs.Operands
import Abacus.Proofs.Tree.Growing
import Abacus.Proofs.Typing.Sweep

/-!
# Kinds are sound

An expression that has a kind evaluates to a value of that kind, whatever room
the stack has, or stops because an integer is divided by zero or the stack is
full (`evalOn_of_typeOf`).  The operand classes of the operators carry the proof:
`Typing.unaryKind` and `Typing.binaryKind` accept just the operands on which the
operators are defined.

`stages_of_compile` takes a compiled program apart into the stages that made it.
-/

namespace Abacus

/-! ## Operators -/

namespace Typing

theorem unaryKind_eq_ok_iff {op : UnaryOp} {k j : Kind} {s : Span} :
    unaryKind op k s = .ok j ↔ op.operands.accepts k = true ∧ op.resultKind k = j := by
  unfold unaryKind
  split <;> simp_all

theorem binaryKind_eq_ok_iff {op : BinaryOp} {k l j : Kind} {s t : Span} :
    binaryKind op k l s t = .ok j ↔
      k = l ∧ op.operands.accepts k = true ∧ op.resultKind k = j := by
  unfold binaryKind
  split_ifs <;> simp_all

end Typing

/-! ## Expressions -/

namespace Expr

variable {e : Expr} {k : Kind}

/-- The kinds of the leaves are those of proper values, and no operator leads out
of these kinds. -/
theorem typeOf_ne_untagged (hleaves : e.ProperLeaves) (hkind : e.typeOf = .ok k) :
    k ≠ .untagged := by
  induction e generalizing k with
  | leaf kind v span mark =>
    obtain rfl : v.kind = k := by simpa [typeOf] using hkind
    cases kind with
    | int => obtain ⟨i, rfl⟩ := hleaves; simp [Value.kind]
    | float => obtain ⟨x, rfl⟩ := hleaves; simp [Value.kind]
    | bool => obtain ⟨b, rfl⟩ := hleaves; simp [Value.kind]
    | unknown code => exact hleaves.elim
  | unary op span mark e ih =>
    rw [typeOf, bind_eq_ok_iff] at hkind
    obtain ⟨j, hj, hkind⟩ := hkind
    obtain ⟨-, rfl⟩ := Typing.unaryKind_eq_ok_iff.mp hkind
    have hne : j ≠ .untagged := ih hleaves hj
    cases op <;> simp [UnaryOp.resultKind, hne]
  | binary op span mark l r ihl ihr =>
    rw [typeOf, bind_eq_ok_iff] at hkind
    obtain ⟨j, hj, hkind⟩ := hkind
    rw [bind_eq_ok_iff] at hkind
    obtain ⟨i, -, hkind⟩ := hkind
    obtain ⟨-, -, rfl⟩ := Typing.binaryKind_eq_ok_iff.mp hkind
    have hne : j ≠ .untagged := ihl hleaves.1 hj
    unfold BinaryOp.resultKind
    split
    · exact hne
    · simp

/-- What evaluating an expression of a kind can come to. -/
def Fits (k : Kind) (capacity : Nat) : Except EvalFault Value → Prop
  | .ok v => v.kind = k
  | .error f => f.cause = .divisionByZero ∨ f.cause = .stackOverflow capacity

/-- An expression that has a kind evaluates to a value of this kind, or stops at
a division by zero or at a full stack. -/
theorem evalOn_of_typeOf {capacity height : Nat} (hkind : e.typeOf = .ok k) :
    Fits k capacity (e.evalOn capacity height) := by
  induction e generalizing k height with
  | leaf kind v span mark =>
    obtain rfl : v.kind = k := by simpa [typeOf] using hkind
    unfold evalOn
    split
    · exact .inr rfl
    · exact rfl
  | unary op span mark e ih =>
    rw [typeOf, bind_eq_ok_iff] at hkind
    obtain ⟨j, hj, hkind⟩ := hkind
    obtain ⟨hfit, rfl⟩ := Typing.unaryKind_eq_ok_iff.mp hkind
    have hoperand : Fits j capacity (e.evalOn capacity height) := ih hj
    rw [evalOn]
    cases heval : e.evalOn capacity height with
    | error f =>
      rw [heval] at hoperand
      exact hoperand
    | ok v =>
      rw [heval] at hoperand
      obtain rfl : v.kind = j := hoperand
      obtain ⟨r, happly, hr⟩ := UnaryOp.apply_ok hfit
      rw [mapError_ok, ok_bind, happly]
      exact hr
  | binary op span mark l r ihl ihr =>
    rw [typeOf, bind_eq_ok_iff] at hkind
    obtain ⟨j, hj, hkind⟩ := hkind
    rw [bind_eq_ok_iff] at hkind
    obtain ⟨i, hi, hkind⟩ := hkind
    obtain ⟨rfl, hfit, rfl⟩ := Typing.binaryKind_eq_ok_iff.mp hkind
    have hleft : Fits j capacity (l.evalOn capacity height) := ihl hj
    have hright : Fits j capacity (r.evalOn capacity (height + 1)) := ihr hi
    rw [evalOn]
    cases hevalLeft : l.evalOn capacity height with
    | error f =>
      rw [hevalLeft] at hleft
      exact hleft
    | ok v =>
      rw [hevalLeft] at hleft
      obtain rfl : v.kind = j := hleft
      cases hevalRight : r.evalOn capacity (height + 1) with
      | error f =>
        rw [hevalRight] at hright
        exact hright
      | ok w =>
        rw [hevalRight] at hright
        -- Operands of kinds that fit can only fail as a divisor that is zero.
        obtain ⟨x, happly, hx⟩ | ⟨happly, -, -⟩ :=
          BinaryOp.apply_ok_or_zeroDivisor (Eq.symm hright) hfit
        · rw [mapError_ok, ok_bind, mapError_ok, ok_bind, happly]
          exact hx
        · rw [mapError_ok, ok_bind, mapError_ok, ok_bind, happly]
          exact .inl rfl

end Expr

/-! ## Programs -/

/-- The stages that a source text passes through before it is a program. -/
structure Stages (source : Bytes) (limits : Limits) (p : Program) (e : Expr) : Prop where
  parsed : parse source = .ok e
  typed : e.typeOf = .ok p.kind
  generated : e.generate limits = .ok p.chunk

theorem stages_of_compile {source : Bytes} {limits : Limits} {p : Program}
    (h : compile source limits = .ok p) : ∃ e, Stages source limits p e := by
  rw [compile_eq] at h
  split at h
  · contradiction
  · next e hparse =>
    rw [Tree.typing_ofExpr, Tree.generate_ofExpr] at h
    split at h
    · contradiction
    · next kind hkind =>
      split at h
      · contradiction
      · next chunk hgenerate =>
        cases h
        exact ⟨e, hparse, hkind, hgenerate⟩

/-- A compiled program has the kind of a proper value.  On every machine it gives
a value of that kind, or stops because an integer is divided by zero or the stack
is full. -/
theorem execute_of_compile {source : Bytes} {limits : Limits} {p : Program}
    (hcompile : compile source limits = .ok p) (m : Machine) :
    (p.kind = .int ∨ p.kind = .float ∨ p.kind = .bool) ∧
      match (m.execute p.chunk).1.result with
      | .ok v => v.kind = p.kind
      | .error f => f.cause = .divisionByZero ∨ f.cause = .stackOverflow m.capacity := by
  obtain ⟨e, hparse, hkind, hgenerate⟩ := stages_of_compile hcompile
  have hleaves : e.ProperLeaves := properLeaves_of_parseTokens hparse
  have hrun := Expr.execute_generated hleaves (Expr.generated_of_generate hgenerate) m
  have hfits : Expr.Fits p.kind m.capacity (e.evalOn m.capacity 0) := Expr.evalOn_of_typeOf hkind
  refine ⟨?_, ?_⟩
  · have hne : p.kind ≠ .untagged := Expr.typeOf_ne_untagged hleaves hkind
    cases hk : p.kind <;> simp_all
  · rw [hrun]
    cases heval : e.evalOn m.capacity 0 with
    | ok v =>
      rw [heval] at hfits
      exact hfits
    | error f =>
      rw [heval] at hfits
      exact hfits

/-- A stack of one value is too small for `1+2`. -/
theorem execute_of_compile_sum :
    ∃ p, compile (utf8 "1+2") {} = .ok p ∧
      match ((Machine.withDepth 1).execute p.chunk).1.result with
      | .ok v => v.kind = p.kind
      | .error f => f.cause = .divisionByZero ∨ f.cause = .stackOverflow 1 := by
  have hok : (compile (utf8 "1+2") {}).isOk = true := by decide +kernel
  cases hcompile : compile (utf8 "1+2") {} with
  | error f => rw [hcompile] at hok; contradiction
  | ok p => exact ⟨p, rfl, (execute_of_compile hcompile (Machine.withDepth 1)).2⟩

end Abacus
