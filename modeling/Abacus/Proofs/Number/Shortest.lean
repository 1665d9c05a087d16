import Mathlib.Algebra.Order.Field.Power
import Mathlib.Tactic.FieldSimp
import Mathlib.Tactic.Positivity
import Abacus.Number.Shortest
import Abacus.Proofs.Number.Nearest

/-!
# The shortest decimal reads back

The values that are rounded to a magnitude lie between the middles to its two
neighbours; the middles themselves belong to it when its pattern is even.
`nearest_of_between` says so of the rounding.  `shortest` looks for a decimal between
the middles, and finds one: with nine digits the grid is finer than the upper half of
the range (`decimalUnit_lt_gap`), so the first point above the value lies in it
(`exists_onGrid?`).

`ofRat` is the magnitude nearest to an exact number, and `ofRat_shortest` is the result:
the shortest decimal of a finite magnitude is rounded to it.
-/

namespace Abacus

/-- A quotient within half a unit of a number is rounded to it; half a unit away it has
to be even. -/
theorem roundHalfEven_eq_of_between {num den n : Nat} (hden : 0 < den)
    (hlow : 2 * (n * den) ≤ 2 * num + den) (hhigh : 2 * num ≤ 2 * (n * den) + den)
    (hodd : n % 2 = 1 → 2 * (n * den) < 2 * num + den ∧ 2 * num < 2 * (n * den) + den) :
    roundHalfEven num den = n := by
  have habove : 2 * (roundHalfEven num den * den) ≤ 2 * num + den := roundHalfEven_mul_le hden
  have hbelow : 2 * num ≤ 2 * (roundHalfEven num den * den) + den := le_roundHalfEven_mul hden
  have htie : 2 * num = 2 * (roundHalfEven num den * den) + den ∨
      2 * (roundHalfEven num den * den) = 2 * num + den → roundHalfEven num den % 2 = 0 :=
    roundHalfEven_even_of_tie hden
  generalize roundHalfEven num den = r at habove hbelow htie
  rcases Nat.lt_trichotomy r n with hlt | heq | hgt
  · have hmul : (r + 1) * den ≤ n * den := Nat.mul_le_mul_right den hlt
    rw [Nat.add_mul, Nat.one_mul] at hmul
    -- The quotient is the middle between the two, so both are even.
    have hr : r % 2 = 0 := htie (.inl (by omega))
    have hn : n % 2 = 0 := by
      by_contra hn
      have hstrict := hodd (by omega)
      omega
    have hmore : (r + 2) * den ≤ n * den := Nat.mul_le_mul_right den (by omega)
    rw [Nat.add_mul] at hmore
    omega
  · exact heq
  · have hmul : (n + 1) * den ≤ r * den := Nat.mul_le_mul_right den hgt
    rw [Nat.add_mul, Nat.one_mul] at hmul
    have hr : r % 2 = 0 := htie (.inr (by omega))
    have hn : n % 2 = 0 := by
      by_contra hn
      have hstrict := hodd (by omega)
      omega
    have hmore : (n + 2) * den ≤ r * den := Nat.mul_le_mul_right den (by omega)
    rw [Nat.add_mul] at hmore
    omega

namespace Binary32

/-! ## Steps -/

/-- A magnitude is a scale and a significand of at most twenty-four bits, of exactly
twenty-four unless the scale is zero. -/
theorem exists_scale (m : Nat) :
    ∃ scale sig, m = scale * binade + sig ∧ sig < 2 ^ 24 ∧ (scale = 0 ∨ 2 ^ 23 ≤ sig) := by
  have hbinade : binade = 2 ^ 23 := rfl
  have hmod : m % binade < binade := Nat.mod_lt _ (by decide)
  have hdiv : m / binade * binade + m % binade = m := Nat.div_add_mod' m binade
  by_cases hsmall : m / binade = 0
  · refine ⟨0, m % binade, ?_, by omega, .inl rfl⟩
    rw [hsmall] at hdiv
    omega
  · refine ⟨m / binade - 1, binade + m % binade, ?_, by omega, .inr (by omega)⟩
    rw [Nat.sub_mul]
    have hle : 1 * binade ≤ m / binade * binade :=
      Nat.mul_le_mul_right _ (Nat.pos_of_ne_zero hsmall)
    omega

/-- The value of a scale and a significand. -/
theorem steps_scale {scale sig : Nat} (hle : sig ≤ 2 ^ 24) (hscale : scale = 0 ∨ 2 ^ 23 ≤ sig) :
    steps (scale * binade + sig) = sig * 2 ^ scale := by
  have hbinade : binade = 2 ^ 23 := rfl
  unfold steps
  rw [hbinade, Nat.pow_eq]
  by_cases hsmall : sig < 2 ^ 23
  · obtain rfl : scale = 0 := by omega
    rw [Nat.zero_mul, Nat.zero_add, if_pos hsmall, Nat.pow_zero, Nat.mul_one]
  · rw [if_neg (by omega)]
    by_cases hcarry : sig = 2 ^ 24
    · -- The significand takes one bit more, which is the next scale.
      have hquot : (scale * 2 ^ 23 + sig) / 2 ^ 23 = scale + 2 := by omega
      have hmod : (scale * 2 ^ 23 + sig) % 2 ^ 23 = 0 := by omega
      rw [hquot, hmod, hcarry, show scale + 2 - 1 = scale + 1 from rfl, Nat.pow_succ]
      ring
    · have hquot : (scale * 2 ^ 23 + sig) / 2 ^ 23 = scale + 1 := by omega
      have hmod : (scale * 2 ^ 23 + sig) % 2 ^ 23 = sig - 2 ^ 23 := by omega
      have hsum : 2 ^ 23 + (sig - 2 ^ 23) = sig := by omega
      rw [hquot, hmod, hsum, Nat.add_sub_cancel]

/-! ## The range of a magnitude -/

section Between

variable {num den scale sig : Nat}

theorem shiftOf_le (hnum : num < 2 ^ 24 * (den * 2 ^ scale)) : shiftOf num den ≤ scale := by
  by_contra hgt
  have hleast : 2 ^ 23 * (den * 2 ^ shiftOf num den) ≤ num := scaled_le_num (by omega)
  have hdouble : 2 * (den * 2 ^ scale) ≤ den * 2 ^ shiftOf num den := by
    calc 2 * (den * 2 ^ scale) = den * 2 ^ (scale + 1) := by ring
      _ ≤ den * 2 ^ shiftOf num den :=
        Nat.mul_le_mul_left den (Nat.pow_le_pow_right (by omega) (by omega))
  omega

theorem le_shiftOf (hden : 0 < den) (hnum : 2 ^ 23 * (den * 2 ^ scale) ≤ num) :
    scale ≤ shiftOf num den := by
  by_contra hlt
  have hscaled : num < 2 ^ 24 * (den * 2 ^ shiftOf num den) := num_lt_scaled hden
  have hhalf : 2 * (den * 2 ^ shiftOf num den) ≤ den * 2 ^ scale := by
    calc 2 * (den * 2 ^ shiftOf num den) = den * 2 ^ (shiftOf num den + 1) := by ring
      _ ≤ den * 2 ^ scale :=
        Nat.mul_le_mul_left den (Nat.pow_le_pow_right (by omega) (by omega))
  omega

/-- A quotient is rounded to the significand that is within half a unit of it at its own
scale. -/
theorem nearest_of_significand (hden : 0 < den) (hscale : shiftOf num den = scale)
    (hfinite : scale * binade + sig < infMagnitude)
    (hlow : 2 * (sig * (den * 2 ^ scale)) ≤ 2 * num + den * 2 ^ scale)
    (hhigh : 2 * num ≤ 2 * (sig * (den * 2 ^ scale)) + den * 2 ^ scale)
    (hodd : sig % 2 = 1 → 2 * (sig * (den * 2 ^ scale)) < 2 * num + den * 2 ^ scale ∧
      2 * num < 2 * (sig * (den * 2 ^ scale)) + den * 2 ^ scale) :
    nearest num den = scale * binade + sig := by
  have hunit : 0 < den * 2 ^ scale := Nat.mul_pos hden (Nat.two_pow_pos _)
  have hsignificand : significand num den = sig := by
    rw [significand, hscale]
    exact roundHalfEven_eq_of_between hunit hlow hhigh hodd
  rw [nearest_eq, hscale, hsignificand]
  exact min_eq_left (Nat.le_of_lt hfinite)

/-- The range of a power of two.  The numbers below it are twice as dense as those above,
and a quotient below it is rounded at the scale of those. -/
theorem nearest_of_between_power (hden : 0 < den)
    (hfinite : (scale + 1) * binade + 2 ^ 23 < infMagnitude)
    (hlow : (2 ^ 25 - 1) * (den * 2 ^ scale) ≤ 2 * num)
    (hhigh : 2 * num ≤ (2 ^ 24 + 1) * (den * 2 ^ (scale + 1))) :
    nearest num den = (scale + 1) * binade + 2 ^ 23 := by
  have hbinade : binade = 2 ^ 23 := rfl
  have hdouble : den * 2 ^ (scale + 1) = 2 * (den * 2 ^ scale) := by ring
  have hunit : 0 < den * 2 ^ scale := Nat.mul_pos hden (Nat.two_pow_pos _)
  by_cases habove : 2 ^ 23 * (den * 2 ^ (scale + 1)) ≤ num
  · have hshift : shiftOf num den = scale + 1 := by
      refine Nat.le_antisymm (shiftOf_le ?_) (le_shiftOf hden habove)
      omega
    exact nearest_of_significand hden hshift hfinite (by omega) (by omega) (by omega)
  · have hshift : shiftOf num den = scale := by
      refine Nat.le_antisymm (shiftOf_le ?_) (le_shiftOf hden ?_)
      · omega
      · omega
    have hsame : scale * binade + 2 ^ 24 = (scale + 1) * binade + 2 ^ 23 := by
      rw [hbinade]
      omega
    rw [← hsame] at hfinite ⊢
    exact nearest_of_significand hden hshift hfinite (by omega) (by omega) (by omega)

/-- The range of any other magnitude. -/
theorem nearest_of_between_regular (hden : 0 < den) (hsig : sig < 2 ^ 24)
    (hscale : scale = 0 ∨ 2 ^ 23 < sig) (hfinite : scale * binade + sig < infMagnitude)
    (hlow : 2 * (sig * (den * 2 ^ scale)) ≤ 2 * num + den * 2 ^ scale)
    (hhigh : 2 * num ≤ 2 * (sig * (den * 2 ^ scale)) + den * 2 ^ scale)
    (hodd : sig % 2 = 1 → 2 * (sig * (den * 2 ^ scale)) < 2 * num + den * 2 ^ scale ∧
      2 * num < 2 * (sig * (den * 2 ^ scale)) + den * 2 ^ scale) :
    nearest num den = scale * binade + sig := by
  have hunit : 0 < den * 2 ^ scale := Nat.mul_pos hden (Nat.two_pow_pos _)
  have hmost : sig * (den * 2 ^ scale) ≤ (2 ^ 24 - 1) * (den * 2 ^ scale) :=
    Nat.mul_le_mul_right _ (by omega)
  have hshift : shiftOf num den = scale := by
    refine Nat.le_antisymm (shiftOf_le (by omega)) ?_
    rcases hscale with rfl | hleast
    · exact Nat.zero_le _
    · have hmore : (2 ^ 23 + 1) * (den * 2 ^ scale) ≤ sig * (den * 2 ^ scale) :=
        Nat.mul_le_mul_right _ hleast
      exact le_shiftOf hden (by omega)
  exact nearest_of_significand hden hshift hfinite hlow hhigh hodd

end Between

/-- A quotient between the middles to the two neighbours of a magnitude is rounded to
it.  The middles belong to it when it is even. -/
theorem nearest_of_between {m num den : Nat} (hden : 0 < den) (hpos : 0 < m)
    (hm : m < infMagnitude) (hlow : (steps (m - 1) + steps m) * den ≤ 2 * num)
    (hhigh : 2 * num ≤ (steps m + steps (m + 1)) * den)
    (hodd : m % 2 = 1 → (steps (m - 1) + steps m) * den < 2 * num ∧
      2 * num < (steps m + steps (m + 1)) * den) :
    nearest num den = m := by
  have hbinade : binade = 2 ^ 23 := rfl
  obtain ⟨scale, sig, rfl, hsig, hscale⟩ := exists_scale m
  have hsteps : steps (scale * binade + sig) = sig * 2 ^ scale :=
    steps_scale (Nat.le_of_lt hsig) hscale
  have hnext : steps (scale * binade + sig + 1) = (sig + 1) * 2 ^ scale := by
    rw [Nat.add_assoc]
    exact steps_scale (by omega) (by omega)
  by_cases hpower : 0 < scale ∧ sig = 2 ^ 23
  · obtain ⟨hscalepos, rfl⟩ := hpower
    obtain ⟨below, rfl⟩ : ∃ below, scale = below + 1 := ⟨scale - 1, by omega⟩
    have hprev : steps ((below + 1) * binade + 2 ^ 23 - 1) = (2 ^ 24 - 1) * 2 ^ below := by
      rw [show (below + 1) * binade + 2 ^ 23 - 1 = below * binade + (2 ^ 24 - 1) by
        rw [hbinade]
        omega]
      exact steps_scale (by omega) (by omega)
    rw [hprev, hsteps] at hlow
    rw [hsteps, hnext] at hhigh
    refine nearest_of_between_power hden hm (le_trans (le_of_eq ?_) hlow)
      (le_trans hhigh (le_of_eq ?_))
    · ring
    · ring
  · have hone : 1 ≤ sig := by
      rcases hscale with rfl | hleast
      · omega
      · omega
    have hprev : steps (scale * binade + sig - 1) = (sig - 1) * 2 ^ scale := by
      rw [Nat.add_sub_assoc hone]
      exact steps_scale (by omega) (by omega)
    have hdown : (steps (scale * binade + sig - 1) + steps (scale * binade + sig)) * den +
        den * 2 ^ scale = 2 * (sig * (den * 2 ^ scale)) := by
      obtain ⟨rest, rfl⟩ : ∃ rest, sig = rest + 1 := ⟨sig - 1, by omega⟩
      rw [hprev, hsteps, Nat.add_sub_cancel]
      ring
    have hup : (steps (scale * binade + sig) + steps (scale * binade + sig + 1)) * den =
        2 * (sig * (den * 2 ^ scale)) + den * 2 ^ scale := by
      rw [hsteps, hnext]
      ring
    have hparity : (scale * binade + sig) % 2 = sig % 2 := by
      rw [hbinade]
      omega
    refine nearest_of_between_regular hden hsig (by omega) hm (by omega) (by omega) ?_
    intro hsigodd
    have hstrict := hodd (by omega)
    omega

/-! ## The search -/

section Search

variable {m p : Nat}

/-- How far the upper end of the range lies above the value. -/
def gap (m : Nat) : Nat :=
  (steps (m + 1) - steps m) * halfStep

/-- The range reaches up by more than a part in `2 ^ 25` of the value, and by more than
nothing. -/
theorem scaledValue_lt (m : Nat) :
    scaledHigh m = scaledValue m + gap m ∧ scaledValue m < 2 ^ 25 * gap m ∧ halfStep ≤ gap m := by
  obtain ⟨scale, sig, rfl, hsig, hscale⟩ := exists_scale m
  have hsteps : steps (scale * binade + sig) = sig * 2 ^ scale :=
    steps_scale (Nat.le_of_lt hsig) hscale
  have hnext : steps (scale * binade + sig + 1) = (sig + 1) * 2 ^ scale := by
    rw [Nat.add_assoc]
    exact steps_scale (by omega) (by omega)
  have hgap : gap (scale * binade + sig) = 2 ^ scale * halfStep := by
    rw [gap, hsteps, hnext, Nat.add_mul, Nat.one_mul, Nat.add_sub_cancel_left]
  have hvalue : scaledValue (scale * binade + sig) = 2 * sig * (2 ^ scale * halfStep) := by
    rw [scaledValue, hsteps]
    ring
  have hpow : 1 ≤ 2 ^ scale := Nat.two_pow_pos scale
  have hhalf : halfStep ≤ 2 ^ scale * halfStep := Nat.le_mul_of_pos_left _ hpow
  have hpos : 0 < halfStep := Nat.pow_pos (by decide)
  refine ⟨?_, ?_, ?_⟩
  · rw [scaledHigh, hvalue, hgap, hsteps, hnext]
    ring
  · rw [hvalue, hgap]
    exact Nat.mul_lt_mul_of_pos_right (by omega) (by omega)
  · rw [hgap]
    exact hhalf

theorem scaledLow_le (hpos : 0 < m) : scaledLow m < scaledValue m := by
  have hless : steps (m - 1) < steps m := by
    obtain ⟨scale, sig, hm, hsig, hscale⟩ := exists_scale (m - 1)
    have hnext : m = scale * binade + (sig + 1) := by omega
    rw [hm, hnext, steps_scale (Nat.le_of_lt hsig) hscale, steps_scale (by omega) (by omega)]
    exact Nat.mul_lt_mul_of_pos_right (by omega) (Nat.two_pow_pos _)
  have hhalf : 0 < halfStep := Nat.pow_pos (by decide)
  rw [scaledLow, scaledValue, Nat.two_mul]
  exact Nat.mul_lt_mul_of_pos_right (by omega) hhalf

theorem decimalUnit_add (p extra : Nat) : decimalUnit (p + extra) = 10 ^ extra * decimalUnit p := by
  rw [decimalUnit, decimalUnit, Nat.pow_eq, Nat.pow_eq]
  ring

/-- The leading index is zero, or its unit is not above the value. -/
theorem decimalUnit_leadingIndex_le (value top : Nat) :
    leadingIndex value top = 0 ∨ decimalUnit (leadingIndex value top) ≤ value := by
  induction top with
  | zero => exact .inl rfl
  | succ p ih =>
    rw [leadingIndex]
    split
    · next hle => exact .inr hle
    · exact ih

/-- Nine digits are finer than the upper part of the range. -/
theorem decimalUnit_lt_gap (m top : Nat) :
    decimalUnit (leadingIndex (scaledValue m) top - 8) < gap m := by
  obtain ⟨-, hvalue, hhalf⟩ := scaledValue_lt m
  have hleast : decimalUnit 0 < halfStep := by decide
  by_cases hsmall : leadingIndex (scaledValue m) top < 8
  · rw [Nat.sub_eq_zero_of_le (by omega)]
    omega
  · have hunit := decimalUnit_leadingIndex_le (scaledValue m) top
    generalize leadingIndex (scaledValue m) top = lead at hsmall hunit
    obtain ⟨p, rfl⟩ : ∃ p, lead = p + 8 := ⟨lead - 8, by omega⟩
    rw [decimalUnit_add] at hunit
    rw [Nat.add_sub_cancel]
    omega

theorem roundsTo_of_inside {scaled : Nat} (hlow : scaledLow m < scaled)
    (hhigh : scaled < scaledHigh m) : roundsTo m scaled = true := by
  unfold roundsTo
  split <;> simp only [Bool.and_eq_true, decide_eq_true_eq] <;> omega

/-- A grid that is finer than the upper part of the range has a point in it. -/
theorem exists_onGrid? (hpos : 0 < m) (hunit : decimalUnit p < gap m) :
    ∃ c, onGrid? m p = some c := by
  obtain ⟨hhigh, -, -⟩ := scaledValue_lt m
  have hlow : scaledLow m < scaledValue m := scaledLow_le hpos
  have hunitpos : 0 < decimalUnit p := Nat.mul_pos (Nat.pow_pos (by decide)) (by decide)
  have hdiv := Nat.div_add_mod' (scaledValue m) (decimalUnit p)
  have hmod := Nat.mod_lt (scaledValue m) hunitpos
  -- The point above the value is inside.
  have habove : roundsTo m ((scaledValue m / decimalUnit p + 1) * decimalUnit p) = true := by
    apply roundsTo_of_inside
    · rw [Nat.add_mul]
      omega
    · rw [Nat.add_mul]
      omega
  obtain ⟨hround, -⟩ | ⟨hround, -⟩ := roundHalfEven_cases (scaledValue m) (decimalUnit p)
  · simp only [onGrid?, hround, if_true, habove]
    split
    · exact ⟨_, rfl⟩
    · exact ⟨_, rfl⟩
  · simp only [onGrid?, hround, habove, if_true]
    exact ⟨_, rfl⟩

theorem roundsTo_of_onGrid? {c : Nat} (h : onGrid? m p = some c) :
    roundsTo m (c * decimalUnit p) = true := by
  unfold onGrid? at h
  simp only at h
  split_ifs at h with hnear hfar hfar
  all_goals
    cases h
    assumption

/-- The search finds a decimal in the range. -/
theorem shortest_roundsTo (hpos : 0 < m) :
    ∃ p : Nat, (shortest m).exponent = (p : Int) - 54 ∧
      roundsTo m ((shortest m).coefficient * decimalUnit p) = true := by
  unfold shortest
  simp only
  generalize htop : leadingIndex (scaledValue m) 92 = top
  obtain ⟨c, hc⟩ : ∃ c, onGrid? m (top - 8) = some c := by
    rw [← htop]
    exact exists_onGrid? hpos (decimalUnit_lt_gap m 92)
  generalize hhit : (List.range 9).findSome? _ = hit
  cases hit with
  | none =>
    rw [List.findSome?_eq_none_iff] at hhit
    have hlast := hhit 8 (by decide)
    rw [hc] at hlast
    cases hlast
  | some d =>
    obtain ⟨extra, -, hextra⟩ := List.exists_of_findSome?_eq_some hhit
    obtain ⟨c, hc, rfl⟩ := Option.map_eq_some_iff.mp hextra
    exact ⟨top - extra, rfl, roundsTo_of_onGrid? hc⟩

end Search

/-! ## Exact numbers -/

/-- The magnitude nearest to the amount of an exact number. -/
def ofRat (q : ℚ) : Nat :=
  nearest (q.num.natAbs * oneSteps) q.den

/-- The exact number that a decimal denotes. -/
def Decimal.value (d : Decimal) : ℚ :=
  d.coefficient * 10 ^ d.exponent

/-- An exact number between the middles to the neighbours of a magnitude is rounded to
it. -/
theorem ofRat_of_between {m : Nat} {q : ℚ} (hpos : 0 < m) (hm : m < infMagnitude) (hq : 0 ≤ q)
    (hlow : ((steps (m - 1) + steps m : ℕ) : ℚ) ≤ 2 * (q * oneSteps))
    (hhigh : 2 * (q * oneSteps) ≤ ((steps m + steps (m + 1) : ℕ) : ℚ))
    (hodd : m % 2 = 1 → ((steps (m - 1) + steps m : ℕ) : ℚ) < 2 * (q * oneSteps) ∧
      2 * (q * oneSteps) < ((steps m + steps (m + 1) : ℕ) : ℚ)) :
    ofRat q = m := by
  have hden : (0 : ℚ) < q.den := by exact_mod_cast q.den_pos
  have hnum : ((q.num.natAbs : ℕ) : ℚ) = q * q.den := by
    rw [Rat.mul_den_eq_num, Nat.cast_natAbs, abs_of_nonneg (Rat.num_nonneg.mpr hq)]
  have hvalue : 2 * (q * oneSteps) = ((2 * (q.num.natAbs * oneSteps) : ℕ) : ℚ) / q.den := by
    rw [eq_div_iff hden.ne']
    push_cast
    rw [hnum]
    ring
  rw [hvalue, le_div_iff₀ hden] at hlow
  rw [hvalue, div_le_iff₀ hden] at hhigh
  rw [hvalue, lt_div_iff₀ hden, div_lt_iff₀ hden] at hodd
  exact nearest_of_between q.den_pos hpos hm (by exact_mod_cast hlow) (by exact_mod_cast hhigh)
    (by exact_mod_cast hodd)

/-- The shortest decimal of a finite magnitude is rounded to it. -/
theorem ofRat_shortest {m : Nat} (hpos : 0 < m) (hm : m < infMagnitude) :
    ofRat (shortest m).value = m := by
  obtain ⟨p, hexponent, hrounds⟩ := shortest_roundsTo hpos
  have hhalf : (0 : ℚ) < halfStep := by
    have hnat : 0 < halfStep := Nat.pow_pos (by decide)
    exact_mod_cast hnat
  -- On the common scale the decimal is a count of units.
  have hvalue : 2 * ((shortest m).value * oneSteps) =
      (((shortest m).coefficient * decimalUnit p : ℕ) : ℚ) / halfStep := by
    have hten : (halfStep : ℚ) = 10 ^ (54 : ℕ) := by norm_num [halfStep]
    have hunit : (decimalUnit p : ℚ) = 10 ^ p * (2 * oneSteps) := by simp [decimalUnit]
    rw [Decimal.value, hexponent, zpow_sub₀ (by norm_num : (10 : ℚ) ≠ 0), zpow_natCast,
      Nat.cast_mul, hunit, hten]
    push_cast
    ring
  have hnonneg : 0 ≤ (shortest m).value := by
    unfold Decimal.value
    positivity
  have hbounds : scaledLow m ≤ (shortest m).coefficient * decimalUnit p ∧
      (shortest m).coefficient * decimalUnit p ≤ scaledHigh m ∧
      (m % 2 = 1 → scaledLow m < (shortest m).coefficient * decimalUnit p ∧
        (shortest m).coefficient * decimalUnit p < scaledHigh m) := by
    unfold roundsTo at hrounds
    split at hrounds <;> simp only [Bool.and_eq_true, decide_eq_true_eq] at hrounds <;> omega
  obtain ⟨hlow, hhigh, hodd⟩ := hbounds
  refine ofRat_of_between hpos hm hnonneg ?_ ?_ ?_
  · rw [hvalue, le_div_iff₀ hhalf]
    exact_mod_cast hlow
  · rw [hvalue, div_le_iff₀ hhalf]
    exact_mod_cast hhigh
  · rw [hvalue, lt_div_iff₀ hhalf, div_lt_iff₀ hhalf]
    exact_mod_cast hodd

end Binary32

end Abacus
