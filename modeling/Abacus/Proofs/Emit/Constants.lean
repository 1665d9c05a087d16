import Abacus.Emit.Body
import Abacus.Machine.Run
import Abacus.Proofs.Number.Written

/-!
# What the text of a constant denotes

`Value.ofExpression?` reads the expression of a constant by the rules of the language that
it is written in.  A literal is an exact number, and so is its negation.  Only a conversion
gives it a type: it refuses what the type does not hold, rounds to the nearest number of
type `float32`, and makes a zero unsigned.

The text of a tagged constant is read as the constant, except for the negative zero, whose
sign an exact number cannot have (`ofExpression?_expression`).
-/

namespace Abacus

namespace Emit

/-! ## The rules -/

/-- The number that hexadecimal digits behind `0x` denote. -/
def hexLiteral? : Bytes → Option Nat
  | 0x30 :: mark :: digit :: digits =>
    if mark = 0x78 ∨ mark = 0x58 then
      (digit :: digits).foldlM (fun n d => (Bytes.hexValue? d).map (16 * n + ·)) 0
    else none
  | _ => none

/-- The exact number that a literal denotes. -/
def literal? (s : Bytes) : Option ℚ :=
  (decimalLiteral? s).or ((hexLiteral? s).map Nat.cast)

/-- The exact number that a literal behind a sign denotes. -/
def untyped? : Bytes → Option ℚ
  | 0x2d :: s => (literal? s).map Neg.neg
  | s => literal? s

/-- The conversion to `int32`. -/
def toInt32? (q : ℚ) : Option Int32 :=
  if q.den = 1 ∧ -2 ^ 31 ≤ q.num ∧ q.num < 2 ^ 31 then some (Int32.ofInt q.num) else none

/-- The conversion to `uint32`. -/
def toUInt32? (q : ℚ) : Option UInt32 :=
  if q.den = 1 ∧ 0 ≤ q.num ∧ q.num < 2 ^ 32 then some (UInt32.ofNat q.num.toNat) else none

/-- The conversion to `float32`.  A number that is rounded to zero is rounded to the
unsigned zero. -/
def toFloat32? (q : ℚ) : Option Binary32 :=
  let m := Binary32.ofRat q
  if m = Binary32.infMagnitude then none else some (.ofMagnitude (q < 0 && m ≠ 0) m)

/-- A call with one argument, as the function and the argument. -/
def call? (s : Bytes) : Option (Bytes × Bytes) :=
  match s.dropWhile (· ≠ 0x28) with
  | [] => none
  | _ :: rest =>
    if rest.getLast? = some 0x29 then some (s.takeWhile (· ≠ 0x28), rest.dropLast) else none

/-- The bits that a conversion to `uint32` denotes. -/
def bits? (s : Bytes) : Option UInt32 := do
  let (function, argument) ← call? s
  if function = utf8 "uint32" then (untyped? argument).bind toUInt32? else none

end Emit

open Emit in
/-- The value that the expression of a constant denotes. -/
def Value.ofExpression? (s : Bytes) : Option Value :=
  if s = utf8 "true" then some (.bool true)
  else if s = utf8 "false" then some (.bool false)
  else do
    let (function, argument) ← call? s
    if function = utf8 "int32" then ((untyped? argument).bind toInt32?).map .int
    else if function = utf8 "float32" then ((untyped? argument).bind toFloat32?).map .float
    else if function = utf8 "math.Float32frombits" then
      (bits? argument).map fun bits => .float ⟨bits⟩
    else none

namespace Emit

/-! ## Literals -/

theorem untyped?_of_decimal {s : Bytes} {q : ℚ} (hs : decimalLiteral? s = some q) :
    untyped? s = some q := by
  have hliteral : literal? s = some q := by rw [literal?, hs, Option.some_or]
  unfold untyped?
  split
  · next s =>
    -- No decimal literal starts with a sign.
    simp [decimalLiteral?, splitFraction, Bytes.isDigit] at hs
  · exact hliteral

theorem untyped?_neg {s : Bytes} {q : ℚ} (hs : decimalLiteral? s = some q) :
    untyped? (0x2d :: s) = some (-q) := by
  simp [untyped?, literal?, hs]

theorem decimalLiteral?_ofNat (n : Nat) : decimalLiteral? (Bytes.ofNat n) = some (n : ℚ) := by
  have hlead : (Bytes.ofNat n).length = 1 ∨ (Bytes.ofNat n).head? ≠ some 0x30 := by
    rcases Nat.eq_zero_or_pos n with rfl | hn
    · exact .inl rfl
    · exact .inr (Bytes.head?_ofNat hn)
  have hwhole := decimalLiteral?_whole [] (Bytes.isNumeral_ofNat n) (by simp)
    (fun _ => hlead)
  rw [List.append_nil, Bytes.digitsValue_ofNat] at hwhole
  simpa [exponentOf?] using hwhole

theorem untyped?_ofInt (i : Int) : untyped? (Bytes.ofInt i) = some (i : ℚ) := by
  cases i with
  | ofNat n => exact untyped?_of_decimal (decimalLiteral?_ofNat n)
  | negSucc n =>
    refine (untyped?_neg (decimalLiteral?_ofNat (n + 1))).trans ?_
    rw [Int.cast_negSucc]

/-- The digits of a number are read as the number. -/
theorem foldlM_hexValue? (n : Nat) :
    (Bytes.ofAscii (Nat.toDigits 16 n)).foldlM (fun n d => (Bytes.hexValue? d).map (16 * n + ·)) 0 =
      some n := by
  have hdigit : ∀ d < 16, Bytes.hexValue? (UInt8.ofNat (Nat.digitChar d).toNat) = some d := by
    decide
  induction n using Nat.strongRecOn with
  | ind n ih =>
    rw [Nat.toDigits_eq_if (by decide)]
    split
    · next hlt => simp [Bytes.ofAscii, hdigit n hlt]
    · next hge =>
      have hquotient := ih (n / 16) (by omega)
      rw [Bytes.ofAscii] at hquotient ⊢
      rw [List.map_append, List.foldlM_append, hquotient]
      have hlast := hdigit (n % 16) (Nat.mod_lt _ (by decide))
      simp [hlast, Nat.div_add_mod]

theorem untyped?_hexLower (n : Nat) :
    untyped? (0x30 :: 0x78 :: Bytes.hexLower 1 n) = some (n : ℚ) := by
  have hne : Bytes.ofAscii (Nat.toDigits 16 n) ≠ [] := by
    simp [Bytes.ofAscii, Nat.toDigits_ne_nil]
  have hlength : 0 < (Bytes.ofAscii (Nat.toDigits 16 n)).length := List.length_pos_iff.mpr hne
  have hpad : Bytes.hexLower 1 n = Bytes.ofAscii (Nat.toDigits 16 n) := by
    rw [Bytes.hexLower, Bytes.padLeft, Nat.sub_eq_zero_of_le hlength, Bytes.copies,
      List.replicate_zero, List.nil_append]
  have hvalue := foldlM_hexValue? n
  rw [hpad]
  obtain ⟨digit, digits, hdigits⟩ := List.exists_cons_of_ne_nil hne
  rw [hdigits] at hvalue ⊢
  have hdecimal : decimalLiteral? (0x30 :: 0x78 :: digit :: digits) = none := by
    simp [decimalLiteral?, splitFraction, Bytes.isDigit, exponentOf?]
  simp [untyped?, literal?, hdecimal, hexLiteral?, hvalue]

/-! ## Conversions -/

theorem toInt32?_toInt (i : Int32) : toInt32? (i.toInt : ℚ) = some i := by
  have hlow : -2147483648 ≤ i.toInt := Int32.le_toInt i
  have hhigh : i.toInt ≤ 2147483647 := Int32.toInt_le i
  rw [toInt32?, if_pos ⟨Rat.den_intCast _, by simpa using hlow, by simp; omega⟩, Rat.num_intCast,
    Int32.ofInt_toInt]

theorem toUInt32?_toNat (n : UInt32) : toUInt32? (n.toNat : ℚ) = some n := by
  have hn := n.toNat_lt
  rw [toUInt32?, if_pos ⟨Rat.den_natCast _, by simp, by simpa using hn⟩, Rat.num_natCast,
    Int.toNat_natCast, UInt32.ofNat_toNat]

end Emit

namespace Binary32

theorem ofMagnitude_magnitude (x : Binary32) : ofMagnitude x.isNegative x.magnitude = x := by
  have hx := x.bits.toNat_lt
  have hbits : (if x.isNegative then signBit + x.magnitude else x.magnitude) = x.bits.toNat := by
    by_cases hsign : signBit ≤ x.bits.toNat
    · simp only [isNegative, magnitude, hsign, decide_true, if_true]
      simp only [signBit] at hsign ⊢
      omega
    · simp only [isNegative, magnitude, hsign, decide_false, Bool.false_eq_true, if_false]
      exact Nat.mod_eq_of_lt (by omega)
  rw [ofMagnitude, hbits, UInt32.ofNat_toNat]

theorem ofRat_zero : ofRat 0 = 0 := by
  decide

theorem ofRat_neg (q : ℚ) : ofRat (-q) = ofRat q := by
  rw [ofRat, ofRat, Rat.neg_num, Rat.neg_den, Int.natAbs_neg]

theorem coefficient_shortest_pos {m : Nat} (hpos : 0 < m) (hm : m < infMagnitude) :
    0 < (shortest m).coefficient := by
  by_contra hzero
  have hround := ofRat_shortest hpos hm
  rw [Decimal.value, Nat.eq_zero_of_not_pos hzero, Nat.cast_zero, zero_mul, ofRat_zero] at hround
  omega

/-- The text of a finite magnitude denotes an exact number that is rounded to it. -/
theorem exists_decimalLiteral?_magnitudeText {m : Nat} (hm : m < infMagnitude) :
    ∃ q : ℚ, decimalLiteral? (magnitudeText m) = some q ∧ 0 ≤ q ∧ (q = 0 ↔ m = 0) ∧
      ofRat q = m := by
  rcases Nat.eq_zero_or_pos m with rfl | hpos
  · have hzero : decimalLiteral? (magnitudeText 0) = some 0 := by
      exact_mod_cast Emit.decimalLiteral?_ofNat 0
    exact ⟨0, hzero, le_rfl, by simp, ofRat_zero⟩
  · have hcoefficient := coefficient_shortest_pos hpos hm
    have hvalue : 0 < (shortest m).value := by
      have hcast : (0 : ℚ) < (shortest m).coefficient := by exact_mod_cast hcoefficient
      unfold Decimal.value
      positivity
    refine ⟨(shortest m).value, ?_, hvalue.le, ?_, ofRat_shortest hpos hm⟩
    · rw [magnitudeText, if_neg hpos.ne', DecimalLayout.decimalLiteral?_write _ hcoefficient]
    · simp [hvalue.ne', hpos.ne']

/-- A number that is not negative is converted to the magnitude to which it is rounded. -/
theorem toFloat32?_of_nonneg {q : ℚ} (hnonneg : 0 ≤ q) (hq : ofRat q < infMagnitude) :
    Emit.toFloat32? q = some (ofMagnitude false (ofRat q)) := by
  have hpositive : ¬q < 0 := not_lt.mpr hnonneg
  rw [Emit.toFloat32?, if_neg hq.ne, decide_eq_false hpositive, Bool.false_and]

/-- The negation of a positive number keeps the sign. -/
theorem toFloat32?_neg {q : ℚ} (hpos : 0 < q) (hround : 0 < ofRat q)
    (hq : ofRat q < infMagnitude) :
    Emit.toFloat32? (-q) = some (ofMagnitude true (ofRat q)) := by
  have hnegative : -q < 0 := neg_neg_of_pos hpos
  rw [Emit.toFloat32?, ofRat_neg, if_neg hq.ne, decide_eq_true hnegative,
    decide_eq_true hround.ne', Bool.and_self]

theorem eq_zero_true_iff (x : Binary32) :
    x = zero true ↔ x.isNegative = true ∧ x.magnitude = 0 := by
  constructor
  · rintro rfl
    exact ⟨by decide, by decide⟩
  · rintro ⟨hsign, hzero⟩
    rw [← ofMagnitude_magnitude x, hsign, hzero, zero]

/-- The text of a finite number is converted to the number, and that of either zero to the
unsigned one. -/
theorem toFloat32?_text {x : Binary32} (hx : x.isFinite = true) :
    (Emit.untyped? x.text).bind Emit.toFloat32? =
      some (if x = zero true then zero false else x) := by
  have hm : x.magnitude < infMagnitude := of_decide_eq_true hx
  have hnan : x.isNaN = false := decide_eq_false (by omega)
  have hinf : x.isInfinite = false := decide_eq_false (by omega)
  obtain ⟨q, hq, hnonneg, hzero, hround⟩ := exists_decimalLiteral?_magnitudeText hm
  have hfinite : ofRat q < infMagnitude := by rwa [hround]
  have hsame := ofMagnitude_magnitude x
  by_cases hsign : x.isNegative = true
  · have htext : Emit.untyped? x.text = some (-q) := by
      rw [text, hnan, hinf, hsign]
      exact Emit.untyped?_neg hq
    rw [htext, Option.bind_some]
    by_cases hm0 : x.magnitude = 0
    · rw [if_pos ((eq_zero_true_iff x).mpr ⟨hsign, hm0⟩), hzero.mpr hm0, neg_zero,
        toFloat32?_of_nonneg le_rfl (by rw [ofRat_zero]; decide), ofRat_zero, zero]
    · have hpos : 0 < q := lt_of_le_of_ne hnonneg fun h => hm0 (hzero.mp h.symm)
      rw [if_neg fun h => hm0 ((eq_zero_true_iff x).mp h).2,
        toFloat32?_neg hpos (by omega) hfinite, hround, ← hsign, hsame]
  · have hplain : x.isNegative = false := Bool.eq_false_iff.mpr hsign
    have htext : Emit.untyped? x.text = some q := by
      rw [text, hnan, hinf, hplain]
      exact Emit.untyped?_of_decimal hq
    rw [htext, Option.bind_some, if_neg fun h => hsign ((eq_zero_true_iff x).mp h).1,
      toFloat32?_of_nonneg hnonneg hfinite, hround, ← hplain, hsame]

-- A number beyond the range is refused, and one that is too small becomes zero.
example : Emit.toFloat32? (35 * 10 ^ 37) = none ∧
    Emit.toFloat32? (-1 / 10 ^ 46) = some (zero false) := by
  decide +kernel

end Binary32

/-! ## Constants -/

namespace Emit

theorem call?_call {function : Bytes} (argument : Bytes) (hfunction : 0x28 ∉ function) :
    call? (function ++ 0x28 :: (argument ++ [0x29])) = some (function, argument) := by
  have hplain : ∀ b ∈ function, decide (b ≠ 0x28) = true := by
    intro b hb
    have : b ≠ 0x28 := fun h => hfunction (h ▸ hb)
    simpa using this
  unfold call?
  rw [List.dropWhile_append_of_pos hplain, List.takeWhile_append_of_pos hplain]
  simp

theorem bits?_hexLower (n : UInt32) :
    bits? (utf8 "uint32" ++ 0x28 :: (0x30 :: 0x78 :: Bytes.hexLower 1 n.toNat ++ [0x29])) =
      some n := by
  rw [bits?, call?_call _ (by decide)]
  show (untyped? (0x30 :: 0x78 :: Bytes.hexLower 1 n.toNat)).bind toUInt32? = some n
  rw [untyped?_hexLower, Option.bind_some, toUInt32?_toNat]

end Emit

namespace Value

/-- A call is read by the rule of its function. -/
theorem ofExpression?_call {function argument : Bytes} (hfunction : 0x28 ∉ function) :
    ofExpression? (function ++ 0x28 :: (argument ++ [0x29])) =
      if function = utf8 "int32" then
        ((Emit.untyped? argument).bind Emit.toInt32?).map .int
      else if function = utf8 "float32" then
        ((Emit.untyped? argument).bind Emit.toFloat32?).map .float
      else if function = utf8 "math.Float32frombits" then
        (Emit.bits? argument).map fun bits => .float ⟨bits⟩
      else none := by
  have hparen : ∀ s : Bytes, 0x28 ∉ s → function ++ 0x28 :: (argument ++ [0x29]) ≠ s := by
    rintro s hs rfl
    exact hs (by simp)
  rw [ofExpression?, if_neg (hparen _ (by decide)), if_neg (hparen _ (by decide)),
    Emit.call?_call argument hfunction]
  rfl

/-- What the expression of a constant denotes: a negative zero loses its sign, and an
untagged constant is false. -/
def asWritten : Value → Value
  | .untagged => .bool false
  | .float x => .float (if x = .zero true then .zero false else x)
  | v => v

theorem ofExpression?_expression (v : Value) : ofExpression? v.expression = some v.asWritten := by
  cases v with
  | untagged => decide
  | bool b => cases b <;> decide
  | int i =>
    have htext : expression (.int i) = utf8 "int32" ++ 0x28 :: (Bytes.ofInt i.toInt ++ [0x29]) :=
      rfl
    rw [htext, ofExpression?_call (by decide), if_pos rfl, Emit.untyped?_ofInt, Option.bind_some,
      Emit.toInt32?_toInt]
    rfl
  | float x =>
    cases hx : x.isFinite with
    | true =>
      have htext : expression (.float x) = utf8 "float32" ++ 0x28 :: (x.text ++ [0x29]) := by
        rw [expression, hx]
        rfl
      rw [htext, ofExpression?_call (by decide), if_neg (by decide), if_pos rfl,
        Binary32.toFloat32?_text hx]
      rfl
    | false =>
      have hother : x ≠ .zero true := by
        rintro rfl
        exact absurd hx (by decide)
      have htext : expression (.float x) = utf8 "math.Float32frombits" ++ 0x28 ::
          (utf8 "uint32" ++ 0x28 :: (0x30 :: 0x78 :: Bytes.hexLower 1 x.bits.toNat ++ [0x29]) ++
            [0x29]) := by
        have hopen : utf8 "math.Float32frombits(uint32(0x" =
            utf8 "math.Float32frombits" ++ 0x28 :: (utf8 "uint32" ++ [0x28, 0x30, 0x78]) := by
          decide
        have hclose : utf8 "))" = [0x29, 0x29] := by decide
        simp [expression, hx, hopen, hclose]
      rw [htext, ofExpression?_call (by decide), if_neg (by decide), if_neg (by decide),
        if_pos rfl, Emit.bits?_hexLower, asWritten, if_neg hother]
      rfl

/-- The expression of a tagged constant denotes a value of the same kind, and the same bits
for every constant but the negative zero. -/
theorem exists_ofExpression?_expression {v : Value} (hv : v.kind ≠ .untagged) :
    ∃ w, ofExpression? v.expression = some w ∧ w.kind = v.kind ∧
      (w.bits = v.bits ↔ v ≠ .float (.zero true)) := by
  refine ⟨v.asWritten, ofExpression?_expression v, ?_⟩
  cases v with
  | untagged => exact absurd rfl hv
  | int i => exact ⟨rfl, by simp [asWritten]⟩
  | bool b => exact ⟨rfl, by simp [asWritten]⟩
  | float x =>
    refine ⟨rfl, ?_⟩
    by_cases hx : x = .zero true
    · subst hx
      decide
    · simp [asWritten, hx]

/-- The least positive number: one digit and an exponent. -/
theorem exists_ofExpression?_least :
    let v : Value := .float ⟨1⟩
    v.kind ≠ .untagged ∧ v.expression = utf8 "float32(1e-45)" ∧
      ∃ w, ofExpression? (utf8 "float32(1e-45)") = some w ∧ w.kind = .float ∧ w.bits = 1 := by
  intro v
  have htext : v.expression = utf8 "float32(1e-45)" := by decide +kernel
  obtain ⟨w, hw, hkind, hbits⟩ := exists_ofExpression?_expression (v := v) (by decide)
  exact ⟨by decide, htext, w, htext ▸ hw, hkind, hbits.mpr (by decide)⟩

/-- The machine returns the negative zero of a constant; the text of the constant denotes
the unsigned zero. -/
theorem ofExpression?_negative_zero :
    let v : Value := .float (.zero true)
    let c : Chunk := { Chunk.empty with code? := some [0x10, 0x00, 0xf0], constants := [v] }
    ((Machine.withDepth 1).execute c).1.result = .ok v ∧
      c.body 1 = .ok ⟨[.declare 0 (.constant v), .result 0], .float⟩ ∧
      v.expression = utf8 "float32(-0)" ∧
      ofExpression? v.expression = some (.float (.zero false)) ∧
      (Value.float (.zero false)).bits ≠ v.bits := by
  intro v c
  exact ⟨by decide, by decide, by decide, ofExpression?_expression v, by decide⟩

end Value

end Abacus
