import Mathlib.Tactic.Ring
import Mathlib.Tactic.Linarith
import Abacus.Number.Binary32

/-!
# Rounding to the nearest number

`roundHalfEven` is within half a unit of the quotient and takes the even
neighbour of a tie.  `Binary32.nearest` scales a quotient by `shiftOf`, so that
at most twenty-four bits are left of it, and rounds it then to its `significand`.
The main facts are

* `roundHalfEven_lt_iff`: a quotient is rounded below an even number exactly when
  it lies below the middle between that number and the one before;
* `nearest_lt_infMagnitude_iff`: a quotient is rounded to a finite number exactly
  when it lies below the middle between the largest finite number and the next
  power of two.
-/

namespace Abacus

/-! ## Quotients -/

section Quotients

variable {num den : Nat}

/-- The rounded quotient is one of the two integers around the quotient. -/
theorem roundHalfEven_cases (num den : Nat) :
    (roundHalfEven num den = num / den ∧ 2 * (num % den) ≤ den ∧
      (2 * (num % den) = den → num / den % 2 = 0)) ∨
    (roundHalfEven num den = num / den + 1 ∧ den ≤ 2 * (num % den) ∧
      (2 * (num % den) = den → num / den % 2 = 1)) := by
  unfold roundHalfEven
  simp only
  split_ifs <;> omega

/-- The rounded quotient is at most half a unit too large. -/
theorem roundHalfEven_mul_le (hden : 0 < den) :
    2 * (roundHalfEven num den * den) ≤ 2 * num + den := by
  have hdiv : num / den * den + num % den = num := Nat.div_add_mod' num den
  have hmod : num % den < den := Nat.mod_lt _ hden
  obtain ⟨hround, hhalf, -⟩ | ⟨hround, hhalf, -⟩ := roundHalfEven_cases num den
  · rw [hround]
    omega
  · rw [hround, Nat.add_mul, Nat.one_mul]
    omega

/-- The rounded quotient is at most half a unit too small. -/
theorem le_roundHalfEven_mul (hden : 0 < den) :
    2 * num ≤ 2 * (roundHalfEven num den * den) + den := by
  have hdiv : num / den * den + num % den = num := Nat.div_add_mod' num den
  have hmod : num % den < den := Nat.mod_lt _ hden
  obtain ⟨hround, hhalf, -⟩ | ⟨hround, hhalf, -⟩ := roundHalfEven_cases num den
  · rw [hround]
    omega
  · rw [hround, Nat.add_mul, Nat.one_mul]
    omega

/-- Of two neighbours at the same distance the even one is taken. -/
theorem roundHalfEven_even_of_tie (hden : 0 < den)
    (htie : 2 * num = 2 * (roundHalfEven num den * den) + den ∨
      2 * (roundHalfEven num den * den) = 2 * num + den) :
    roundHalfEven num den % 2 = 0 := by
  have hdiv : num / den * den + num % den = num := Nat.div_add_mod' num den
  have hmod : num % den < den := Nat.mod_lt _ hden
  obtain ⟨hround, hhalf, heven⟩ | ⟨hround, hhalf, hodd⟩ := roundHalfEven_cases num den
  · rw [hround] at htie ⊢
    exact heven (by omega)
  · rw [hround, Nat.add_mul, Nat.one_mul] at htie
    have := hodd (by omega)
    omega

/-- A quotient is rounded below an even number exactly when it lies below the
middle between that number and the one before. -/
theorem roundHalfEven_lt_iff {k : Nat} (hden : 0 < den) (heven : k % 2 = 0) :
    roundHalfEven num den < k ↔ 2 * num + den < 2 * (k * den) := by
  have hle : 2 * (roundHalfEven num den * den) ≤ 2 * num + den := roundHalfEven_mul_le hden
  have hge : 2 * num ≤ 2 * (roundHalfEven num den * den) + den := le_roundHalfEven_mul hden
  constructor
  · intro hlt
    have hmul : (roundHalfEven num den + 1) * den ≤ k * den := Nat.mul_le_mul_right den hlt
    rw [Nat.add_mul, Nat.one_mul] at hmul
    by_contra hnot
    -- Only the middle itself is left, and there the even neighbour is taken.
    have htie : roundHalfEven num den % 2 = 0 := roundHalfEven_even_of_tie hden (.inl (by omega))
    have hnext : roundHalfEven num den + 1 < k := by omega
    have hmore : (roundHalfEven num den + 2) * den ≤ k * den := Nat.mul_le_mul_right den hnext
    rw [Nat.add_mul] at hmore
    omega
  · intro hlt
    by_contra hnot
    have hmul : k * den ≤ roundHalfEven num den * den := Nat.mul_le_mul_right den (by omega)
    omega

end Quotients

/-! ## Magnitudes -/

namespace Binary32

variable {num den : Nat}

/-- How far a quotient is scaled down before it is rounded: at most twenty-four
bits are left of it, and exactly twenty-four if it is scaled at all. -/
def shiftOf (num den : Nat) : Nat :=
  (num / den).log2 - 23

/-- The scaled quotient, rounded. -/
def significand (num den : Nat) : Nat :=
  roundHalfEven num (den * 2 ^ shiftOf num den)

theorem nearest_eq (num den : Nat) :
    nearest num den =
      min (shiftOf num den * binade + significand num den) infMagnitude := by
  simp only [nearest, shiftOf, significand, Nat.pow_eq]
  split <;> omega

theorem num_lt_scaled (hden : 0 < den) : num < 2 ^ 24 * (den * 2 ^ shiftOf num den) := by
  have hlog : num / den < 2 ^ ((num / den).log2 + 1) := Nat.lt_log2_self
  have hpow : 2 ^ ((num / den).log2 + 1) ≤ 2 ^ (shiftOf num den + 24) :=
    Nat.pow_le_pow_right (by omega) (by unfold shiftOf; omega)
  calc num < 2 ^ (shiftOf num den + 24) * den :=
        (Nat.div_lt_iff_lt_mul hden).mp (Nat.lt_of_lt_of_le hlog hpow)
    _ = 2 ^ 24 * (den * 2 ^ shiftOf num den) := by rw [Nat.pow_add]; ring

theorem scaled_le_num (hshift : 0 < shiftOf num den) :
    2 ^ 23 * (den * 2 ^ shiftOf num den) ≤ num := by
  have hne : num / den ≠ 0 := by
    intro hzero
    simp [shiftOf, hzero] at hshift
  have hlog : 2 ^ (num / den).log2 ≤ num / den := Nat.log2_self_le hne
  have hsum : (num / den).log2 = shiftOf num den + 23 := by unfold shiftOf at *; omega
  rw [hsum] at hlog
  calc 2 ^ 23 * (den * 2 ^ shiftOf num den) = den * 2 ^ (shiftOf num den + 23) := by
        rw [Nat.pow_add]; ring
    _ ≤ den * (num / den) := Nat.mul_le_mul_left _ hlog
    _ ≤ num := Nat.mul_div_le num den

theorem significand_le (hden : 0 < den) : significand num den ≤ 2 ^ 24 := by
  have hlt : num < 2 ^ 24 * (den * 2 ^ shiftOf num den) := num_lt_scaled hden
  have hpos : 0 < den * 2 ^ shiftOf num den := Nat.mul_pos hden (Nat.two_pow_pos _)
  unfold significand
  generalize den * 2 ^ shiftOf num den = unit at hlt hpos ⊢
  have hround : 2 * (roundHalfEven num unit * unit) ≤ 2 * num + unit := roundHalfEven_mul_le hpos
  by_contra hnot
  have hmore : (2 ^ 24 + 1) * unit ≤ roundHalfEven num unit * unit :=
    Nat.mul_le_mul_right unit (by omega)
  omega

theorem le_significand (hden : 0 < den) (hshift : 0 < shiftOf num den) :
    2 ^ 23 ≤ significand num den := by
  have hle : 2 ^ 23 * (den * 2 ^ shiftOf num den) ≤ num := scaled_le_num hshift
  have hpos : 0 < den * 2 ^ shiftOf num den := Nat.mul_pos hden (Nat.two_pow_pos _)
  unfold significand
  generalize den * 2 ^ shiftOf num den = unit at hle hpos ⊢
  have hround : 2 * num ≤ 2 * (roundHalfEven num unit * unit) + unit := le_roundHalfEven_mul hpos
  by_contra hnot
  have hless : (roundHalfEven num unit + 1) * unit ≤ 2 ^ 23 * unit :=
    Nat.mul_le_mul_right unit (by omega)
  rw [Nat.add_mul, Nat.one_mul] at hless
  omega

/-- What is rounded to a finite number lies below the middle between the largest
finite number and the power of two behind it. -/
theorem nearest_lt_infMagnitude_iff (hden : 0 < den) :
    nearest num den < infMagnitude ↔ num < (2 ^ 25 - 1) * (den * 2 ^ 252) := by
  have hsignificand : significand num den ≤ 2 ^ 24 := significand_le hden
  have hscaled : num < 2 ^ 24 * (den * 2 ^ shiftOf num den) := num_lt_scaled hden
  rw [nearest_eq, min_lt_iff, or_iff_left (lt_irrefl _)]
  -- Only at the last scale before infinity does the rounding decide.
  obtain hsmall | hlast | hlarge :
      shiftOf num den ≤ 252 ∨ shiftOf num den = 253 ∨ 254 ≤ shiftOf num den := by omega
  · have hunit : den * 2 ^ shiftOf num den ≤ den * 2 ^ 252 :=
      Nat.mul_le_mul_left den (Nat.pow_le_pow_right (by omega) hsmall)
    refine iff_of_true ?_ ?_
    · unfold infMagnitude binade
      omega
    · generalize den * 2 ^ 252 = unit at hunit ⊢
      omega
  · have hunit : den * 2 ^ 253 = 2 * (den * 2 ^ 252) := by ring
    have hpos : 0 < den * 2 ^ 253 := Nat.mul_pos hden (Nat.two_pow_pos _)
    have hround : significand num den < 2 ^ 24 ↔ 2 * num + den * 2 ^ 253 <
        2 * (2 ^ 24 * (den * 2 ^ 253)) := by
      unfold significand
      rw [hlast]
      exact roundHalfEven_lt_iff hpos (by decide)
    rw [hunit] at hround
    generalize den * 2 ^ 252 = unit at hround ⊢
    unfold infMagnitude binade
    omega
  · have hunit : 4 * (den * 2 ^ 252) ≤ den * 2 ^ shiftOf num den := by
      calc 4 * (den * 2 ^ 252) = den * 2 ^ 254 := by ring
        _ ≤ den * 2 ^ shiftOf num den :=
          Nat.mul_le_mul_left den (Nat.pow_le_pow_right (by omega) hlarge)
    have hsome : 2 ^ 23 ≤ significand num den := le_significand hden (by omega)
    have hleast : 2 ^ 23 * (den * 2 ^ shiftOf num den) ≤ num := scaled_le_num (by omega)
    refine iff_of_false ?_ ?_
    · unfold infMagnitude binade
      omega
    · generalize den * 2 ^ 252 = unit at hunit ⊢
      omega

theorem nearest_le_infMagnitude (num den : Nat) : nearest num den ≤ infMagnitude := by
  rw [nearest_eq]
  exact min_le_right _ _

end Binary32

end Abacus
