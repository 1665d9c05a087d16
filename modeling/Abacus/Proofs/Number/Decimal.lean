import Abacus.Number.Literal
import Abacus.Proofs.Number.Nearest

/-!
# Reading decimals

What the readers of numbers give for the texts of literals: digits, and digits
with a point between them.  The main facts are

* `readInt32?_numeral`: digits are read as the integer that they denote, when it
  is at most `maxInteger`;
* `readInt32?_ofNat`: a natural number of 32 bits is read back from its digits;
* `readFloat_decimal`: digits with a point between them are read as the number
  nearest to their exact value, when that number is finite.
-/

namespace Abacus

/-! ## Texts of literals -/

/-- A text of digits, at least one. -/
def IsNumeral (s : Bytes) : Prop :=
  s ≠ [] ∧ s.all Bytes.isDigit = true

/-- A text of digits with a point between them. -/
def IsDecimal (s : Bytes) : Prop :=
  ∃ whole fraction, IsNumeral whole ∧ IsNumeral fraction ∧ s = whole ++ 0x2e :: fraction

instance (s : Bytes) : Decidable (IsNumeral s) :=
  inferInstanceAs (Decidable (s ≠ [] ∧ s.all Bytes.isDigit = true))

theorem IsNumeral.isDigit {s : Bytes} {b : UInt8} (h : IsNumeral s) (hb : b ∈ s) :
    Bytes.isDigit b = true :=
  List.all_eq_true.mp h.2 b hb

/-- The digits before the point. -/
def wholePart (s : Bytes) : Bytes :=
  s.takeWhile (· ≠ 0x2e)

/-- The digits behind the point. -/
def fractionPart (s : Bytes) : Bytes :=
  (s.dropWhile (· ≠ 0x2e)).tail

/-- The number that the digits of a decimal denote without the point. -/
def coefficient (s : Bytes) : Nat :=
  Bytes.digitsValue (wholePart s ++ fractionPart s)

/-- Ten to the number of digits behind the point. -/
def denominator (s : Bytes) : Nat :=
  10 ^ (fractionPart s).length

/-- The largest integer of a literal. -/
def maxInteger : Nat := 2147483647

/-- The middle between the largest finite number and the power of two behind it,
from which on a decimal is rounded to infinity. -/
def floatLimit : Nat := 2 ^ 128 - 2 ^ 103

section Digits

variable {b : UInt8} {s whole fraction : Bytes}

theorem toNat_of_isDigit (hdigit : Bytes.isDigit b = true) : 0x30 ≤ b.toNat ∧ b.toNat ≤ 0x39 := by
  simpa [Bytes.isDigit, UInt8.le_iff_toNat_le] using hdigit

theorem ne_of_isDigit {c : UInt8} (hdigit : Bytes.isDigit b = true)
    (hother : Bytes.isDigit c = false) : b ≠ c := by
  rintro rfl
  rw [hdigit] at hother
  contradiction

theorem lowerByte_of_isDigit (hdigit : Bytes.isDigit b = true) : Bytes.lowerByte b = b := by
  have hbounds : 0x30 ≤ b.toNat ∧ b.toNat ≤ 0x39 := toNat_of_isDigit hdigit
  unfold Bytes.lowerByte
  rw [if_neg]
  simp [UInt8.le_iff_toNat_le]
  omega

theorem splitSign_digit (hdigit : Bytes.isDigit b = true) :
    splitSign (b :: s) = (false, b :: s) := by
  have hplus : b ≠ 0x2b := ne_of_isDigit hdigit (by decide)
  have hminus : b ≠ 0x2d := ne_of_isDigit hdigit (by decide)
  unfold splitSign
  split <;> simp_all

theorem wholePart_decimal (hwhole : IsNumeral whole) :
    wholePart (whole ++ 0x2e :: fraction) = whole := by
  have hpoint : ∀ b ∈ whole, decide (b ≠ 0x2e) = true := fun b hb =>
    decide_eq_true (ne_of_isDigit (hwhole.isDigit hb) (by decide))
  rw [wholePart, List.takeWhile_append_of_pos hpoint]
  simp

theorem fractionPart_decimal (hwhole : IsNumeral whole) :
    fractionPart (whole ++ 0x2e :: fraction) = fraction := by
  have hpoint : ∀ b ∈ whole, decide (b ≠ 0x2e) = true := fun b hb =>
    decide_eq_true (ne_of_isDigit (hwhole.isDigit hb) (by decide))
  rw [fractionPart, List.dropWhile_append_of_pos hpoint]
  simp

end Digits

/-! ## Integers -/

/-- Digits denote an integer of 32 bits exactly up to the largest one. -/
theorem readInt32?_numeral {s : Bytes} (hs : IsNumeral s) :
    readInt32? s =
      if Bytes.digitsValue s ≤ maxInteger then some (Int32.ofInt (Bytes.digitsValue s))
      else none := by
  cases s with
  | nil => exact absurd rfl hs.1
  | cons b s =>
    simp only [readInt32?, splitSign_digit (hs.isDigit List.mem_cons_self), hs.2]
    simp only [List.isEmpty_cons, Bool.not_true, Bool.or_self, Bool.false_eq_true, if_false]
    exact if_congr Nat.lt_succ_iff rfl rfl

/-! ## Integers in writing -/

namespace Bytes

theorem toNat_ofNat_of_isDigit {c : Char} (h : c.isDigit = true) :
    (UInt8.ofNat c.toNat).toNat = c.toNat ∧ 0x30 ≤ c.toNat ∧ c.toNat ≤ 0x39 := by
  have hbounds : 0x30 ≤ c.toNat ∧ c.toNat ≤ 0x39 := by
    simpa [Char.isDigit, UInt32.le_iff_toNat_le] using h
  refine ⟨?_, hbounds⟩
  rw [UInt8.toNat_ofNat']
  omega

theorem isDigit_of_mem_toDigits {n : Nat} {c : Char} (hc : c ∈ Nat.toDigits 10 n) :
    c.isDigit = true :=
  Nat.isDigit_of_mem_toDigits (by decide) (by decide) hc

theorem isNumeral_ofNat (n : Nat) : IsNumeral (ofNat n) := by
  constructor
  · simp [ofNat, ofAscii, Nat.toDigits_ne_nil]
  · rw [List.all_eq_true]
    intro b hb
    obtain ⟨c, hc, rfl⟩ := List.mem_map.mp hb
    obtain ⟨heq, hle, hge⟩ := toNat_ofNat_of_isDigit (isDigit_of_mem_toDigits hc)
    simp [isDigit, UInt8.le_iff_toNat_le, heq, hle, hge]

/-- Digits as bytes denote what they denote as characters. -/
theorem digitsValue_ofAscii {cs : List Char} (hcs : ∀ c ∈ cs, c.isDigit = true) :
    digitsValue (ofAscii cs) = Nat.ofDigitChars 10 cs 0 := by
  unfold digitsValue
  generalize 0 = start
  induction cs generalizing start with
  | nil => rfl
  | cons c cs ih =>
    obtain ⟨heq, -⟩ := toNat_ofNat_of_isDigit (hcs c List.mem_cons_self)
    rw [Nat.ofDigitChars_cons, ← ih fun c hc => hcs c (List.mem_cons_of_mem _ hc)]
    simp only [ofAscii, List.map_cons, List.foldl_cons, heq]
    rfl

theorem digitsValue_ofNat (n : Nat) : digitsValue (ofNat n) = n := by
  rw [ofNat, digitsValue_ofAscii fun c hc => isDigit_of_mem_toDigits hc]
  exact Nat.ofDigitChars_ten_toDigits

end Bytes

/-- The digits of a natural number are read as that number. -/
theorem readInt32?_ofNat {i : Int32} (h : 0 ≤ i.toInt) :
    readInt32? (Bytes.ofNat i.toInt.toNat) = some i := by
  have hmax : i.toInt ≤ 2147483647 := Int32.toInt_le i
  have hrange : i.toInt.toNat ≤ maxInteger := by
    rw [maxInteger]
    omega
  rw [readInt32?_numeral (Bytes.isNumeral_ofNat _), Bytes.digitsValue_ofNat, if_pos hrange,
    Int.toNat_of_nonneg h, Int32.ofInt_toInt]

/-! ## Floating-point numbers -/

section Mantissa

variable {s : Bytes}

theorem digitIn?_digit {b : UInt8} (hdigit : Bytes.isDigit b = true) :
    digitIn? 10 b = some (b.toNat - 0x30) := by
  simp [digitIn?, hdigit]

/-- A mantissa takes digits in from left to right. -/
theorem readMantissa_digits (hs : ∀ b ∈ s, Bytes.isDigit b = true) (m : Mantissa)
    (rest : Bytes) :
    readMantissa 10 m (s ++ rest) =
      readMantissa 10 ⟨s.foldl (fun n d => 10 * n + (d.toNat - 0x30)) m.value,
        m.digits + s.length, m.places.map (· + s.length)⟩ rest := by
  induction s generalizing m with
  | nil => simp
  | cons b s ih =>
    have hdigit : Bytes.isDigit b = true := hs b List.mem_cons_self
    have hscore : b ≠ 0x5f := ne_of_isDigit hdigit (by decide)
    have hpoint : b ≠ 0x2e := ne_of_isDigit hdigit (by decide)
    rw [List.cons_append, readMantissa, if_neg hscore, if_neg hpoint, digitIn?_digit hdigit]
    simp only [ih fun c hc => hs c (List.mem_cons_of_mem b hc)]
    simp [Nat.mul_comm, Nat.add_comm, Nat.add_left_comm, Function.comp_def]

theorem underscoresFit_digits (hs : ∀ b ∈ s, Bytes.isDigit b = true) (after : Bool)
    (rest : Bytes) :
    underscoresFit 10 after false (s ++ rest) =
      underscoresFit 10 (after || !s.isEmpty) false rest := by
  induction s generalizing after with
  | nil => simp
  | cons b s ih =>
    have hdigit : Bytes.isDigit b = true := hs b List.mem_cons_self
    rw [List.cons_append, underscoresFit, digitIn?_digit hdigit]
    simp [ih fun c hc => hs c (List.mem_cons_of_mem b hc)]

end Mantissa

section Decimals

variable {whole fraction : Bytes}

theorem underscoresFit_decimal (hwhole : IsNumeral whole) (hfraction : IsNumeral fraction) :
    underscoresFit 10 false false (whole ++ 0x2e :: fraction) = true := by
  rw [underscoresFit_digits fun _ => hwhole.isDigit, underscoresFit]
  have hend := underscoresFit_digits (fun _ => hfraction.isDigit) false []
  rw [List.append_nil] at hend
  simp [digitIn?, Bytes.isDigit, hend, underscoresFit]

theorem readScaled?_decimal (hwhole : IsNumeral whole) (hfraction : IsNumeral fraction) :
    readScaled? 10 (whole ++ 0x2e :: fraction) =
      some ⟨Bytes.digitsValue (whole ++ fraction), 10, -(fraction.length : Int)⟩ := by
  have hend := fun m => readMantissa_digits (fun _ => hfraction.isDigit) m []
  simp only [List.append_nil] at hend
  simp only [readScaled?, readMantissa_digits fun _ => hwhole.isDigit, readMantissa, hend]
  simp [Bytes.digitsValue, List.foldl_append, hwhole.1]

theorem lowerByte_ne_of_mem {b : UInt8} (hwhole : IsNumeral whole) (hfraction : IsNumeral fraction)
    (hb : b ∈ whole ++ 0x2e :: fraction) : Bytes.lowerByte b ≠ 0x78 := by
  rw [List.mem_append, List.mem_cons] at hb
  obtain hb | rfl | hb := hb
  · rw [lowerByte_of_isDigit (hwhole.isDigit hb)]
    exact ne_of_isDigit (hwhole.isDigit hb) (by decide)
  · decide
  · rw [lowerByte_of_isDigit (hfraction.isDigit hb)]
    exact ne_of_isDigit (hfraction.isDigit hb) (by decide)

theorem readUnsigned?_decimal (hwhole : IsNumeral whole) (hfraction : IsNumeral fraction) :
    readUnsigned? (whole ++ 0x2e :: fraction) =
      some ⟨Bytes.digitsValue (whole ++ fraction), 10, -(fraction.length : Int)⟩ := by
  have hfit := underscoresFit_decimal hwhole hfraction
  have hscaled := readScaled?_decimal hwhole hfraction
  unfold readUnsigned?
  split
  · next x d rest heq =>
    -- No byte of the text marks a hexadecimal number.
    have hx : Bytes.lowerByte x ≠ 0x78 :=
      lowerByte_ne_of_mem hwhole hfraction (by rw [heq]; simp)
    rw [if_neg hx, if_pos hfit, hscaled]
  · rw [if_pos hfit, hscaled]

theorem readSpecial?_digit {b : UInt8} (hdigit : Bytes.isDigit b = true) (signed negative : Bool)
    (s : Bytes) : readSpecial? signed negative (b :: s) = none := by
  have hi : b ≠ 0x69 := ne_of_isDigit hdigit (by decide)
  have hn : b ≠ 0x6e := ne_of_isDigit hdigit (by decide)
  have hinf : utf8 "inf" = [0x69, 0x6e, 0x66] := by decide
  have hinfinity : utf8 "infinity" = [0x69, 0x6e, 0x66, 0x69, 0x6e, 0x69, 0x74, 0x79] := by decide
  have hnan : utf8 "nan" = [0x6e, 0x61, 0x6e] := by decide
  simp [readSpecial?, hinf, hinfinity, hnan, lowerByte_of_isDigit hdigit, hi, hn]

theorem magnitude_places (c : Nat) {places : Nat} (hplaces : 0 < places) :
    (⟨c, 10, -(places : Int)⟩ : ScaledValue).magnitude =
      Binary32.nearest (c * Binary32.oneSteps) (10 ^ places) := by
  have hneg : ¬ 0 ≤ -(places : Int) := by omega
  rw [ScaledValue.magnitude, if_neg hneg]
  simp

/-- A quotient is rounded to a finite number exactly below the limit. -/
theorem nearest_lt_iff_floatLimit {den : Nat} (c : Nat) (hden : 0 < den) :
    Binary32.nearest (c * Binary32.oneSteps) den < Binary32.infMagnitude ↔
      c < floatLimit * den := by
  have hone : Binary32.oneSteps = 2 ^ 149 := rfl
  have hlimit : (2 ^ 25 - 1) * (den * 2 ^ 252) = floatLimit * den * 2 ^ 149 := by
    simp only [floatLimit]
    ring
  rw [Binary32.nearest_lt_infMagnitude_iff hden, hone, hlimit]
  exact Nat.mul_lt_mul_right (Nat.two_pow_pos 149)

/-- A decimal is read as the number nearest to its exact value, when it lies
below the limit of the finite numbers. -/
theorem readFloat_decimal {s : Bytes} (hs : IsDecimal s) :
    readFloat s =
      if coefficient s < floatLimit * denominator s then
        .ok (.ofMagnitude false
          (Binary32.nearest (coefficient s * Binary32.oneSteps) (denominator s)))
      else .error .outOfRange := by
  obtain ⟨whole, fraction, hwhole, hfraction, rfl⟩ := hs
  have hread := readUnsigned?_decimal hwhole hfraction
  have hplaces : 0 < fraction.length := List.length_pos_iff.mpr hfraction.1
  simp only [coefficient, denominator, wholePart_decimal hwhole, fractionPart_decimal hwhole]
  have hden : 0 < 10 ^ fraction.length := Nat.pow_pos (by omega)
  have hlimit := nearest_lt_iff_floatLimit (Bytes.digitsValue (whole ++ fraction)) hden
  have hle := Binary32.nearest_le_infMagnitude
    (Bytes.digitsValue (whole ++ fraction) * Binary32.oneSteps) (10 ^ fraction.length)
  obtain ⟨b, rest, rfl⟩ := List.exists_cons_of_ne_nil hwhole.1
  have hdigit : Bytes.isDigit b = true := hwhole.isDigit List.mem_cons_self
  simp only [List.cons_append] at hread hlimit hle ⊢
  simp only [readFloat, splitSign_digit hdigit, readSpecial?_digit hdigit, hread,
    magnitude_places _ hplaces]
  split_ifs
  · omega
  · rfl
  · rfl
  · omega

end Decimals

end Abacus
