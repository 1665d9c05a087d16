import Mathlib.Data.Int.ModEq
import Abacus.Proofs.Reports

/-!
# Exact integer arithmetic

`Expr.exact` is the value of an expression over the integers, which know no
bound.  `Int32.ofInt` takes an integer to the word of its residue modulo `2 ^ 32`,
and it commutes with the sign, with sums, differences and products of any
integers.  With a quotient it commutes only where both operands are words
themselves and the divisor is not zero (`BinaryOp.onInts_ofInt`).

So an expression evaluates to the word of its exact value whenever its divisions
are of that kind (`Expr.eval_eq_ofInt_exact`): without divisions always, and with
them if no value on the way is too large for a word.
-/

namespace Abacus

/-- The integers that a 32-bit word stands for. -/
def FitsWord (z : Int) : Prop :=
  -2 ^ 31 ≤ z ∧ z < 2 ^ 31

instance (z : Int) : Decidable (FitsWord z) :=
  inferInstanceAs (Decidable (_ ∧ _))

theorem toInt_ofInt_of_fitsWord {z : Int} (h : FitsWord z) : (Int32.ofInt z).toInt = z := by
  obtain ⟨hmin, hmax⟩ := h
  exact Int32.toInt_ofInt_of_le (by omega) (by omega)

/-- One word is congruent to an integer. -/
theorem toInt_modEq_iff {i : Int32} {z : Int} :
    i.toInt ≡ z [ZMOD 2 ^ 32] ↔ i = Int32.ofInt z := by
  constructor
  · intro h
    rw [← Int32.toInt_inj, Int32.toInt_ofInt, ← Int32.toInt_bmod_size, ← Int.emod_bmod i.toInt,
      ← Int.emod_bmod z]
    exact congrArg (Int.bmod · Int32.size) h
  · rintro rfl
    rw [Int32.toInt_ofInt]
    exact Int.bmod_emod

/-- The result of an arithmetic operator over the integers.  A quotient is truncated
toward zero. -/
def BinaryOp.exact : BinaryOp → Int → Int → Int
  | .add, i, j => i + j
  | .sub, i, j => i - j
  | .mul, i, j => i * j
  | .div, i, j => i.tdiv j
  | _, _, _ => 0

/-- An operator on words gives the word of the exact result, whether that fits or not;
only a quotient asks that its operands are words and the divisor is not zero. -/
theorem BinaryOp.onInts_ofInt {op : BinaryOp} {i j : Int} (hop : op.isArithmetic = true)
    (hdiv : op = .div → FitsWord i ∧ FitsWord j ∧ j ≠ 0) :
    op.onInts (Int32.ofInt i) (Int32.ofInt j) = .ok (.int (Int32.ofInt (op.exact i j))) := by
  cases op with
  | add => rw [onInts, exact, Int32.ofInt_add]
  | sub => rw [onInts, exact, Int32.ofInt_sub]
  | mul => rw [onInts, exact, Int32.ofInt_mul]
  | div =>
    obtain ⟨hi, hj, hzero⟩ := hdiv rfl
    have hword : Int32.ofInt j ≠ 0 := by
      intro h
      apply hzero
      rw [← toInt_ofInt_of_fitsWord hj, h, Int32.toInt_zero]
    have hmin : Int32.minValue.toInt = -2 ^ 31 := by decide
    have hmax : Int32.maxValue.toInt = 2 ^ 31 - 1 := by decide
    rw [onInts, if_neg hword, exact, Int32.ofInt_tdiv]
    all_goals unfold FitsWord at hi hj; omega
  | _ => cases hop

namespace Expr

/-- The value of an expression over the integers. -/
def exact : Expr → Int
  | .leaf _ (.int i) _ _ => i.toInt
  | .leaf .. => 0
  | .unary _ _ _ e => -e.exact
  | .binary op _ _ l r => op.exact l.exact r.exact

/-- The expression has only integer literals, negative signs and the operators `ops`. -/
def Integral (ops : List BinaryOp) : Expr → Prop
  | .leaf kind _ _ _ => kind = .int
  | .unary op _ _ e => op = .negate ∧ e.Integral ops
  | .binary op _ _ l r => op ∈ ops ∧ l.Integral ops ∧ r.Integral ops

instance decidableIntegral (ops : List BinaryOp) : (e : Expr) → Decidable (e.Integral ops)
  | .leaf kind _ _ _ => inferInstanceAs (Decidable (kind = .int))
  | .unary op _ _ e =>
    have := decidableIntegral ops e
    inferInstanceAs (Decidable (op = .negate ∧ e.Integral ops))
  | .binary op _ _ l r =>
    have := decidableIntegral ops l
    have := decidableIntegral ops r
    inferInstanceAs (Decidable (op ∈ ops ∧ l.Integral ops ∧ r.Integral ops))

/-- If the expression is a quotient, its divisor is not zero. -/
def DivisorNonzero : Expr → Prop
  | .binary op _ _ _ r => op = .div → r.exact ≠ 0
  | _ => True

instance : (e : Expr) → Decidable e.DivisorNonzero
  | .binary op _ _ _ r => inferInstanceAs (Decidable (op = .div → r.exact ≠ 0))
  | .unary .. => .isTrue trivial
  | .leaf .. => .isTrue trivial

/-- If the expression is a quotient, it is one of words and its divisor is not zero. -/
def DividesWords : Expr → Prop
  | .binary op _ _ l r => op = .div → FitsWord l.exact ∧ FitsWord r.exact ∧ r.exact ≠ 0
  | _ => True

variable {e : Expr} {ops : List BinaryOp}

theorem mem_parts_self (e : Expr) : e ∈ e.parts := by
  cases e <;> simp [parts]

/-- An expression evaluates to the word of its exact value if it divides only words, and
never by zero. -/
theorem eval_eq_ofInt_exact (hops : ∀ op ∈ ops, op.isArithmetic = true) (hleaves : e.ProperLeaves)
    (he : e.Integral ops) (hdiv : ∀ n ∈ e.parts, n.DividesWords) :
    e.eval = .ok (.int (Int32.ofInt e.exact)) := by
  induction e with
  | leaf kind v span mark =>
    obtain rfl : kind = .int := he
    obtain ⟨i, rfl⟩ := hleaves
    rw [eval, exact, Int32.ofInt_toInt]
  | unary op span mark e ih =>
    obtain ⟨rfl, he⟩ := he
    have heval := ih hleaves he fun n hn => hdiv n (by simp [parts, hn])
    rw [eval, heval, mapError_ok, ok_bind, exact, Int32.ofInt_neg]
    rfl
  | binary op span mark l r ihl ihr =>
    obtain ⟨hop, hl, hr⟩ := he
    have hleft := ihl hleaves.1 hl fun n hn => hdiv n (by simp [parts, hn])
    have hright := ihr hleaves.2 hr fun n hn => hdiv n (by simp [parts, hn])
    have happly : op.apply (.int (Int32.ofInt l.exact)) (.int (Int32.ofInt r.exact)) =
        .ok (.int (Int32.ofInt (op.exact l.exact r.exact))) :=
      BinaryOp.onInts_ofInt (hops op hop) (hdiv _ (mem_parts_self _))
    rw [eval, hleft, hright, mapError_ok, ok_bind, mapError_ok, ok_bind, happly, exact]
    rfl

/-- Without the operator there are no quotients. -/
theorem Integral.dividesWords (he : e.Integral ops) (hops : .div ∉ ops) :
    ∀ n ∈ e.parts, n.DividesWords := by
  induction e with
  | leaf => simp [parts, DividesWords]
  | unary op span mark e ih =>
    intro n hn
    simp only [parts, List.mem_append, List.mem_singleton] at hn
    rcases hn with hn | rfl
    · exact ih he.2 n hn
    · trivial
  | binary op span mark l r ihl ihr =>
    intro n hn
    obtain ⟨hop, hl, hr⟩ := he
    simp only [parts, List.mem_append, List.mem_singleton] at hn
    rcases hn with (hn | hn) | rfl
    · exact ihl hl n hn
    · exact ihr hr n hn
    · rintro rfl
      exact absurd hop hops

/-- The operands of a part are parts. -/
theorem operands_mem_parts {op : BinaryOp} {span mark : Span} {l r : Expr}
    (h : .binary op span mark l r ∈ e.parts) : l ∈ e.parts ∧ r ∈ e.parts := by
  induction e with
  | leaf => simp [parts] at h
  | unary op span mark e ih =>
    simp only [parts, List.mem_append, List.mem_singleton, reduceCtorEq, or_false] at h
    simp [parts, ih h]
  | binary op span mark l r ihl ihr =>
    simp only [parts, List.mem_append, List.mem_singleton] at h
    rcases h with (h | h) | h
    · simp [parts, ihl h]
    · simp [parts, ihr h]
    · cases h
      simp [parts, mem_parts_self]

/-- Where every part has a value that fits, the quotients are of words. -/
theorem dividesWords_of_fitsWord (hfits : ∀ n ∈ e.parts, FitsWord n.exact)
    (hzero : ∀ n ∈ e.parts, n.DivisorNonzero) : ∀ n ∈ e.parts, n.DividesWords := by
  intro n hn
  cases n with
  | binary op span mark l r =>
    obtain ⟨hl, hr⟩ := operands_mem_parts hn
    intro hop
    exact ⟨hfits l hl, hfits r hr, hzero _ hn hop⟩
  | _ => trivial

end Expr

/-- A compiled program of integer literals, signs, sums, differences and products, run with
enough room, gives the word that is congruent to its exact value modulo `2 ^ 32`.  With
quotients it gives the exact value itself, if all values on the way fit a word and no divisor
is zero. -/
theorem execute_congruent_exact {source : Bytes} {limits : Limits} {p : Program}
    (hcompile : compile source limits = .ok p) :
    ∃ e, parse source = .ok e ∧ ∀ m : Machine, e.need ≤ m.capacity →
      (e.Integral [.add, .sub, .mul] →
        ∃ i, (m.execute p.chunk).1.result = .ok (.int i) ∧ i.toInt ≡ e.exact [ZMOD 2 ^ 32]) ∧
      (e.Integral [.add, .sub, .mul, .div] → (∀ n ∈ e.parts, FitsWord n.exact) →
        (∀ n ∈ e.parts, n.DivisorNonzero) →
        ∃ i, (m.execute p.chunk).1.result = .ok (.int i) ∧ i.toInt = e.exact) := by
  obtain ⟨e, hparse, -, hgenerate⟩ := stages_of_compile hcompile
  have hleaves : e.ProperLeaves := properLeaves_of_parseTokens hparse
  have hc : e.Generated p.chunk := Expr.generated_of_generate hgenerate
  refine ⟨e, hparse, fun m hroom => ?_⟩
  have hrun := Expr.execute_generated hleaves hc m
  rw [Expr.evalOn_eq_eval (by omega)] at hrun
  refine ⟨fun he => ⟨_, ?_, toInt_modEq_iff.mpr rfl⟩, fun he hfits hzero =>
    ⟨_, ?_, toInt_ofInt_of_fitsWord (hfits e e.mem_parts_self)⟩⟩
  · rw [Expr.eval_eq_ofInt_exact (by decide) hleaves he (he.dividesWords (by decide))] at hrun
    exact hrun
  · rw [Expr.eval_eq_ofInt_exact (by decide) hleaves he
      (Expr.dividesWords_of_fitsWord hfits hzero)] at hrun
    exact hrun

/-- The square of the largest word plus three is four more than a multiple of `2 ^ 32`, and
the quotient of `-7` by two is `-3`. -/
theorem execute_congruent_exact_square_quotient :
    let square : Expr :=
      .joined .sub ⟨21, 22⟩
        (.joined .mul ⟨10, 11⟩ (.ofInt 2147483647 ⟨0, 10⟩) (.ofInt 2147483647 ⟨11, 21⟩))
        (.applied .negate ⟨22, 23⟩ (.ofInt 3 ⟨23, 24⟩))
    let quotient : Expr :=
      .joined .mul ⟨2, 3⟩ (.applied .negate ⟨0, 1⟩ (.ofInt 3 ⟨1, 2⟩))
        (.joined .div ⟨9, 10⟩ (.joined .sub ⟨6, 7⟩ (.ofInt 1 ⟨5, 6⟩) (.ofInt 8 ⟨7, 8⟩))
          (.ofInt 2 ⟨10, 11⟩))
    let m := Machine.withDepth 3
    (square.need ≤ m.capacity ∧ square.Integral [.add, .sub, .mul] ∧
      square.exact = 2 ^ 30 * 2 ^ 32 - 2 ^ 32 + 4 ∧
      ∃ p, compile (utf8 "2147483647*2147483647--3") {} = .ok p ∧
        (m.execute p.chunk).1.result = .ok (.int 4)) ∧
    quotient.need ≤ m.capacity ∧ quotient.Integral [.add, .sub, .mul, .div] ∧
      (∀ n ∈ quotient.parts, FitsWord n.exact) ∧ (∀ n ∈ quotient.parts, n.DivisorNonzero) ∧
      quotient.exact = 9 ∧
      ∃ p, compile (utf8 "-3*((1-8)/2)") {} = .ok p ∧
        (m.execute p.chunk).1.result = .ok (.int 9) := by
  intro square quotient m
  have hsquare : square.Integral [.add, .sub, .mul] := by decide
  have hquotient : quotient.Integral [.add, .sub, .mul, .div] := by decide
  have hfits : ∀ n ∈ quotient.parts, FitsWord n.exact := by decide
  have hzero : ∀ n ∈ quotient.parts, n.DivisorNonzero := by decide
  refine ⟨⟨by decide, hsquare, by decide, ?_⟩, by decide, hquotient, hfits, hzero, by decide, ?_⟩
  · obtain ⟨p, hcompile⟩ : ∃ p, compile (utf8 "2147483647*2147483647--3") {} = .ok p :=
      exists_eq_ok (by decide +kernel)
    obtain ⟨e, hparse, hrun⟩ := execute_congruent_exact hcompile
    obtain rfl : e = square := Except.ok.inj (hparse.symm.trans (by decide +kernel))
    obtain ⟨i, hresult, hcongruent⟩ := (hrun m (by decide)).1 hsquare
    obtain rfl : i = 4 := (toInt_modEq_iff.mp hcongruent).trans (by decide)
    exact ⟨p, hcompile, hresult⟩
  · obtain ⟨p, hcompile⟩ : ∃ p, compile (utf8 "-3*((1-8)/2)") {} = .ok p :=
      exists_eq_ok (by decide +kernel)
    obtain ⟨e, hparse, hrun⟩ := execute_congruent_exact hcompile
    obtain rfl : e = quotient := Except.ok.inj (hparse.symm.trans (by decide +kernel))
    obtain ⟨i, hresult, hi⟩ := (hrun m (by decide)).2 hquotient hfits hzero
    rw [show quotient.exact = (9 : Int32).toInt by decide, Int32.toInt_inj] at hi
    exact ⟨p, hcompile, hi ▸ hresult⟩

end Abacus
