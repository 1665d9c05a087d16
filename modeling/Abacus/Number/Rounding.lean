/-!
# Rounding a quotient

The one rounding rule of the calculator: a quotient of natural numbers goes to
the nearest integer, and a quotient half way between two goes to the even one.
-/

namespace Abacus

/-- The integer nearest to `num / den`; a tie goes to the even neighbour. -/
def roundHalfEven (num den : Nat) : Nat :=
  let q := num / den
  let r := num % den
  if 2 * r < den then q
  else if den < 2 * r then q + 1
  else if q % 2 = 0 then q
  else q + 1

end Abacus
