import Mathlib.Algebra.Order.Field.Power
import Mathlib.Data.List.TakeWhile
import Mathlib.Tactic.FieldSimp
import Abacus.Number.FloatText
import Abacus.Proofs.Number.Decimal
import Abacus.Proofs.Number.Shortest

/-!
# Decimals in writing

`decimalLiteral?` reads a decimal literal and gives the exact number that it denotes:
digits, a point with digits behind it, and an exponent, of which only some digits have to
be there.  Whether a decimal is laid out with an exponent or with its point in place, it
is read as the number that it is (`decimalLiteral?_write`): both layouts write the digits
`ds` of a number whose first digit has the exponent `x`, and denote
`ds * 10 ^ (x + 1 - length ds)`.
-/

namespace Abacus

/-! ## Digits -/

namespace Bytes

theorem foldl_digits (ds : Bytes) (n : Nat) :
    ds.foldl (fun n d => 10 * n + (d.toNat - 0x30)) n = n * 10 ^ ds.length + digitsValue ds := by
  induction ds generalizing n with
  | nil => simp [digitsValue]
  | cons d ds ih =>
    rw [digitsValue, List.foldl_cons, List.foldl_cons, ih, ih (10 * 0 + _), List.length_cons,
      Nat.pow_succ]
    ring

theorem digitsValue_append (ds es : Bytes) :
    digitsValue (ds ++ es) = digitsValue ds * 10 ^ es.length + digitsValue es := by
  rw [digitsValue, List.foldl_append, foldl_digits es]
  rfl

theorem digitsValue_zeros (n : Nat) : digitsValue (copies n 0x30) = 0 := by
  induction n with
  | zero => rfl
  | succ n ih =>
    rw [copies, List.replicate_succ, ← List.singleton_append, digitsValue_append]
    simpa [copies, digitsValue] using ih

@[simp]
theorem length_copies (n : Nat) (b : UInt8) : (copies n b).length = n :=
  List.length_replicate

theorem isDigit_of_mem_copies {n : Nat} {b : UInt8} (hb : b ∈ copies n 0x30) :
    isDigit b = true := by
  rw [List.eq_of_mem_replicate hb]
  decide

/-- A positive number is written without a leading zero. -/
theorem head?_ofNat {n : Nat} (hn : 0 < n) : (ofNat n).head? ≠ some 0x30 := by
  induction n using Nat.strongRecOn with
  | ind n ih =>
    rw [ofNat, Nat.toDigits_eq_if (by decide)]
    split
    · next hlt =>
      have hdigit := Nat.toNat_digitChar_of_lt_ten hlt
      intro hzero
      have hbyte : UInt8.ofNat n.digitChar.toNat = 0x30 := by simpa [ofAscii] using hzero
      rw [hdigit] at hbyte
      have hnat := congrArg UInt8.toNat hbyte
      simp only [UInt8.toNat_ofNat', UInt8.reduceToNat] at hnat
      omega
    · next hge =>
      have hquotient := ih (n / 10) (by omega) (by omega)
      rw [ofAscii, List.map_append, List.head?_append_of_ne_nil]
      · exact hquotient
      · simp [Nat.toDigits_ne_nil]

end Bytes

theorem exists_zeros (ds : Bytes) :
    ∃ n, ds = DecimalLayout.stripZeros ds ++ Bytes.copies n 0x30 := by
  refine ⟨(ds.reverse.takeWhile (· = 0x30)).length, ?_⟩
  have hzeros : ds.reverse.takeWhile (· = 0x30) =
      Bytes.copies (ds.reverse.takeWhile (· = 0x30)).length 0x30 := by
    refine List.eq_replicate_iff.mpr ⟨rfl, ?_⟩
    intro b hb
    simpa using List.mem_takeWhile_imp hb
  have hsplit := congrArg List.reverse
    (List.takeWhile_append_dropWhile (p := (· = (0x30 : UInt8))) (l := ds.reverse))
  rw [List.reverse_append, List.reverse_reverse, hzeros] at hsplit
  rw [DecimalLayout.stripZeros]
  conv_lhs => rw [← hsplit]
  rw [Bytes.copies, List.reverse_replicate]

/-! ## Literals -/

/-- The digits behind a point, and the text behind them. -/
def splitFraction : Bytes → Bytes × Bytes
  | 0x2e :: s => (s.takeWhile Bytes.isDigit, s.dropWhile Bytes.isDigit)
  | s => ([], s)

/-- The number behind an exponent mark; zero where the text ends. -/
def exponentOf? : Bytes → Option Int
  | [] => some 0
  | mark :: s =>
    let (negative, digits) := splitSign s
    if (mark = 0x65 ∨ mark = 0x45) ∧ IsNumeral digits then
      some (if negative then -(Bytes.digitsValue digits : Int) else Bytes.digitsValue digits)
    else none

/-- The exact number that a decimal literal denotes.  Digits alone are not decimal if
another digit follows a leading zero. -/
def decimalLiteral? (s : Bytes) : Option ℚ :=
  let whole := s.takeWhile Bytes.isDigit
  let (fraction, rest) := splitFraction (s.dropWhile Bytes.isDigit)
  if whole ++ fraction = [] ∨ s = whole ∧ 1 < whole.length ∧ whole.head? = some 0x30 then none
  else
    (exponentOf? rest).map fun x =>
      (Bytes.digitsValue (whole ++ fraction) : ℚ) * 10 ^ (x - (fraction.length : Int))

section Literals

variable {whole fraction : Bytes} (tail : Bytes)

/-- Digits end where something else stands. -/
theorem span_digits (hwhole : ∀ b ∈ whole, Bytes.isDigit b = true)
    (htail : ∀ b ∈ tail.head?, Bytes.isDigit b = false) :
    (whole ++ tail).takeWhile Bytes.isDigit = whole ∧
      (whole ++ tail).dropWhile Bytes.isDigit = tail := by
  rw [List.takeWhile_append_of_pos hwhole, List.dropWhile_append_of_pos hwhole]
  cases tail with
  | nil => simp
  | cons b tail =>
    have hb : Bytes.isDigit b = false := htail b rfl
    simp [hb]

theorem decimalLiteral?_point (hwhole : IsNumeral whole)
    (hfraction : ∀ b ∈ fraction, Bytes.isDigit b = true)
    (htail : ∀ b ∈ tail.head?, Bytes.isDigit b = false) :
    decimalLiteral? (whole ++ 0x2e :: (fraction ++ tail)) =
      (exponentOf? tail).map fun x =>
        (Bytes.digitsValue (whole ++ fraction) : ℚ) * 10 ^ (x - (fraction.length : Int)) := by
  obtain ⟨htake, hdrop⟩ := span_digits (0x2e :: (fraction ++ tail))
    (fun b hb => hwhole.isDigit hb) (by simp [Bytes.isDigit])
  obtain ⟨htake', hdrop'⟩ := span_digits tail hfraction htail
  have hne : ¬(whole ++ fraction = [] ∨ whole ++ 0x2e :: (fraction ++ tail) = whole ∧
      1 < whole.length ∧ whole.head? = some 0x30) := by
    simp [hwhole.1]
  simp only [decimalLiteral?, htake, hdrop, splitFraction, htake', hdrop', if_neg hne]

theorem decimalLiteral?_whole (hwhole : IsNumeral whole)
    (htail : ∀ b ∈ tail.head?, Bytes.isDigit b = false ∧ b ≠ 0x2e)
    (hlead : tail = [] → whole.length = 1 ∨ whole.head? ≠ some 0x30) :
    decimalLiteral? (whole ++ tail) =
      (exponentOf? tail).map fun x => (Bytes.digitsValue whole : ℚ) * 10 ^ x := by
  obtain ⟨htake, hdrop⟩ := span_digits tail (fun b hb => hwhole.isDigit hb)
    (fun b hb => (htail b hb).1)
  have hsplit : splitFraction tail = ([], tail) := by
    cases tail with
    | nil => rfl
    | cons b tail =>
      have hb : b ≠ 0x2e := (htail b rfl).2
      unfold splitFraction
      split <;> simp_all
  have hne : ¬(whole ++ [] = [] ∨ whole ++ tail = whole ∧ 1 < whole.length ∧
      whole.head? = some 0x30) := by
    rintro (hnil | ⟨hsame, hlength, hzero⟩)
    · exact hwhole.1 (by simpa using hnil)
    · rcases hlead (by simpa using hsame) with hone | hother
      · omega
      · exact hother hzero
  simp only [decimalLiteral?, htake, hdrop, hsplit, if_neg hne]
  simp

end Literals

/-! ## Layouts -/

namespace DecimalLayout

variable (layout : DecimalLayout)

theorem isNumeral_padLeft {s : Bytes} (hs : IsNumeral s) (width : Nat) :
    IsNumeral (Bytes.padLeft width 0x30 s) := by
  refine ⟨by simp [Bytes.padLeft, hs.1], ?_⟩
  rw [List.all_eq_true]
  intro b hb
  rcases List.mem_append.mp hb with hb | hb
  · exact Bytes.isDigit_of_mem_copies hb
  · exact hs.isDigit hb

theorem digitsValue_padLeft (s : Bytes) (width : Nat) :
    Bytes.digitsValue (Bytes.padLeft width 0x30 s) = Bytes.digitsValue s := by
  rw [Bytes.padLeft, Bytes.digitsValue_append, Bytes.digitsValue_zeros, Nat.zero_mul, Nat.zero_add]

/-- An exponent is read back. -/
theorem exponentOf?_exponentText (x : Int) :
    exponentOf? (0x65 :: layout.exponentText x) = some x := by
  have hnumeral := isNumeral_padLeft (Bytes.isNumeral_ofNat x.natAbs) layout.exponentWidth
  have hvalue := digitsValue_padLeft (Bytes.ofNat x.natAbs) layout.exponentWidth
  rw [Bytes.digitsValue_ofNat] at hvalue
  by_cases hx : x < 0
  · have hsign : splitSign (layout.exponentText x) =
        (true, Bytes.padLeft layout.exponentWidth 0x30 (Bytes.ofNat x.natAbs)) := by
      rw [exponentText, if_pos hx]
      rfl
    have hnatAbs : -(x.natAbs : Int) = x := by omega
    simp only [exponentOf?, hsign, hnumeral, hvalue, hnatAbs]
    simp
  · have hsign : splitSign (layout.exponentText x) =
        (false, Bytes.padLeft layout.exponentWidth 0x30 (Bytes.ofNat x.natAbs)) := by
      rw [exponentText, if_neg hx]
      rfl
    have hnatAbs : (x.natAbs : Int) = x := by omega
    simp only [exponentOf?, hsign, hnumeral, hvalue, hnatAbs]
    simp

section Digits

variable {digits : Bytes} (x : Int)

/-- The layout with an exponent. -/
theorem decimalLiteral?_scientific (hdigits : IsNumeral digits) :
    decimalLiteral? (layout.scientific digits x) =
      some ((Bytes.digitsValue digits : ℚ) * 10 ^ (x + 1 - (digits.length : Int))) := by
  have hexponent := layout.exponentOf?_exponentText x
  match digits, hdigits with
  | [d], hdigits =>
    rw [scientific, decimalLiteral?_whole _ hdigits (by simp [Bytes.isDigit]) (by simp), hexponent]
    simp
  | d :: e :: ds, hdigits =>
    have hd : IsNumeral [d] := ⟨by simp, by simpa using hdigits.isDigit List.mem_cons_self⟩
    have hds : ∀ b ∈ e :: ds, Bytes.isDigit b = true := fun b hb =>
      hdigits.isDigit (List.mem_cons_of_mem _ hb)
    have hpoint := decimalLiteral?_point (0x65 :: layout.exponentText x) hd hds
      (by simp [Bytes.isDigit])
    rw [hexponent] at hpoint
    refine hpoint.trans ?_
    simp only [Option.map_some, List.singleton_append, List.length_cons, Nat.cast_add,
      Nat.cast_one]
    ring_nf

/-- The layout with the point in place. -/
theorem decimalLiteral?_positional (hdigits : IsNumeral digits)
    (hlead : digits.head? ≠ some 0x30) :
    decimalLiteral? (positional digits x) =
      some ((Bytes.digitsValue digits : ℚ) * 10 ^ (x + 1 - (digits.length : Int))) := by
  unfold positional
  split
  · next hx =>
    -- The number is below one: zeros stand before its digits.
    have hzero : IsNumeral [0x30] := by decide
    have hfraction : ∀ b ∈ Bytes.copies (x.natAbs - 1) 0x30 ++ digits, Bytes.isDigit b = true := by
      intro b hb
      rcases List.mem_append.mp hb with hb | hb
      · exact Bytes.isDigit_of_mem_copies hb
      · exact hdigits.isDigit hb
    have hpoint := decimalLiteral?_point [] hzero hfraction (by simp)
    rw [List.append_nil] at hpoint
    refine hpoint.trans ?_
    simp only [exponentOf?, Option.map_some, Bytes.digitsValue_append, Bytes.digitsValue_zeros,
      List.length_append, Bytes.length_copies]
    have hexponent : (0 : Int) - ((x.natAbs - 1 + digits.length : ℕ) : Int) =
        x + 1 - digits.length := by
      omega
    rw [hexponent]
    simp [Bytes.digitsValue]
  · next hx =>
    simp only
    split
    · next hback =>
      -- All digits stand before the point.
      have hlength : digits.length ≤ x.toNat + 1 := by
        simpa [List.isEmpty_iff] using hback
      have hfront : digits.take (x.toNat + 1) = digits := List.take_of_length_le hlength
      have hnumeral : IsNumeral (digits ++ Bytes.copies (x.toNat + 1 - digits.length) 0x30) := by
        refine ⟨by simp [hdigits.1], ?_⟩
        rw [List.all_append, hdigits.2, Bool.true_and, List.all_eq_true]
        intro b hb
        exact Bytes.isDigit_of_mem_copies hb
      have hhead : (digits ++ Bytes.copies (x.toNat + 1 - digits.length) 0x30).head? ≠
          some 0x30 := by
        rw [List.head?_append_of_ne_nil _ hdigits.1]
        exact hlead
      have hwhole := decimalLiteral?_whole [] hnumeral (by simp) (fun _ => .inr hhead)
      rw [List.append_nil] at hwhole
      rw [hfront, hwhole]
      have hexponent : x + 1 - digits.length = ((x.toNat + 1 - digits.length : ℕ) : Int) := by
        omega
      rw [hexponent, zpow_natCast]
      simp [exponentOf?, Bytes.digitsValue_append, Bytes.digitsValue_zeros]
    · next hback =>
      have hlength : x.toNat + 1 < digits.length := by
        simpa [List.isEmpty_iff] using hback
      have hsplit := List.take_append_drop (x.toNat + 1) digits
      have hfront : IsNumeral (digits.take (x.toNat + 1)) := by
        refine ⟨by simp [hdigits.1], ?_⟩
        rw [List.all_eq_true]
        intro b hb
        exact hdigits.isDigit (List.mem_of_mem_take hb)
      have hrest : ∀ b ∈ digits.drop (x.toNat + 1), Bytes.isDigit b = true := fun b hb =>
        hdigits.isDigit (List.mem_of_mem_drop hb)
      have hnone : x.toNat + 1 - (digits.take (x.toNat + 1)).length = 0 := by
        rw [List.length_take]
        omega
      have hpoint := decimalLiteral?_point [] hfront hrest (by simp)
      rw [List.append_nil] at hpoint
      rw [hnone, Bytes.copies, List.replicate_zero, List.append_nil, hpoint, hsplit]
      have hexponent : (0 : Int) - ((digits.drop (x.toNat + 1)).length : Int) =
          x + 1 - digits.length := by
        rw [List.length_drop]
        omega
      simp only [exponentOf?, Option.map_some, hexponent]

end Digits

/-- A decimal in its layout is read as the number that it is. -/
theorem decimalLiteral?_write {d : Binary32.Decimal} (hd : 0 < d.coefficient) :
    decimalLiteral? (layout.write d) = some d.value := by
  obtain ⟨zeros, hzeros⟩ := exists_zeros (Bytes.ofNat d.coefficient)
  have hall := Bytes.isNumeral_ofNat d.coefficient
  have hvalue := Bytes.digitsValue_ofNat d.coefficient
  have hhead := Bytes.head?_ofNat hd
  have hlength := congrArg List.length hzeros
  rw [hzeros, Bytes.digitsValue_append, Bytes.digitsValue_zeros, Bytes.length_copies,
    Nat.add_zero] at hvalue
  rw [List.length_append, Bytes.length_copies] at hlength
  generalize hdigits : stripZeros (Bytes.ofNat d.coefficient) = digits at *
  have hne : digits ≠ [] := by
    rintro rfl
    simp [Bytes.digitsValue] at hvalue
    omega
  have hnumeral : IsNumeral digits := by
    refine ⟨hne, ?_⟩
    have hdigit := hall.2
    rw [hzeros, List.all_append, Bool.and_eq_true] at hdigit
    exact hdigit.1
  have hlead : digits.head? ≠ some 0x30 := by
    rw [hzeros, List.head?_append_of_ne_nil _ hne] at hhead
    exact hhead
  have hsame : (Bytes.digitsValue digits : ℚ) *
      10 ^ (d.exponent + (Bytes.ofNat d.coefficient).length - 1 + 1 - digits.length) = d.value := by
    have hexponent : d.exponent + (Bytes.ofNat d.coefficient).length - 1 + 1 - digits.length =
        (zeros : Int) + d.exponent := by
      omega
    rw [hexponent, zpow_add₀ (by norm_num), zpow_natCast, Binary32.Decimal.value, ← mul_assoc]
    congr 1
    exact_mod_cast hvalue
  rw [write]
  simp only [hdigits]
  split
  · rw [decimalLiteral?_scientific _ _ hnumeral, hsame]
  · rw [decimalLiteral?_positional _ hnumeral hlead, hsame]

end DecimalLayout

end Abacus
