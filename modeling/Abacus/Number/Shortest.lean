import Abacus.Number.Binary32

/-!
# The shortest decimal of a number

`shortest` finds the decimal with the fewest digits that rounds to a given
finite nonzero magnitude, and among those the one nearest to the exact value.
A tie between two decimals goes to the even last digit.

All comparisons are made between whole numbers.  The scale is chosen so that
one step `2 ^ -149` counts `2 * 10 ^ 54`, and the decimal unit `10 ^ (p - 54)`
counts `10 ^ p * 2 ^ 150`.
-/

namespace Abacus

namespace Binary32

/-- A decimal `coefficient * 10 ^ exponent`. -/
structure Decimal where
  coefficient : Nat
  exponent : Int
  deriving DecidableEq

/-- Half of what one step counts on the common scale. -/
def halfStep : Nat := Nat.pow 10 54

/-- The decimal unit with index `p`, on the common scale. -/
def decimalUnit (p : Nat) : Nat :=
  Nat.pow 10 p * (2 * oneSteps)

/-- The exact value of a magnitude, on the common scale. -/
def scaledValue (magnitude : Nat) : Nat :=
  2 * steps magnitude * halfStep

/-- The lower end of the values that round to a magnitude. -/
def scaledLow (magnitude : Nat) : Nat :=
  (steps (magnitude - 1) + steps magnitude) * halfStep

/-- The upper end of the values that round to a magnitude. -/
def scaledHigh (magnitude : Nat) : Nat :=
  (steps magnitude + steps (magnitude + 1)) * halfStep

/-- Whether a scaled value rounds to the magnitude.  The ends of the range
belong to it when the pattern is even, because ties go to the even pattern. -/
def roundsTo (magnitude scaled : Nat) : Bool :=
  if magnitude % 2 = 0 then
    scaledLow magnitude ≤ scaled && scaled ≤ scaledHigh magnitude
  else
    scaledLow magnitude < scaled && scaled < scaledHigh magnitude

/-- The largest unit index up to `top` whose unit is at most `value`. -/
def leadingIndex (value : Nat) : Nat → Nat
  | 0 => 0
  | p + 1 => if decimalUnit (p + 1) ≤ value then p + 1 else leadingIndex value p

/-- The multiple of the unit `p` that rounds to the magnitude and is nearest to
its value, if there is one. -/
def onGrid? (magnitude p : Nat) : Option Nat :=
  let value := scaledValue magnitude
  let unit := decimalUnit p
  let below := value / unit
  let near := roundHalfEven value unit
  let far := if near = below then below + 1 else below
  if roundsTo magnitude (near * unit) then some near
  else if roundsTo magnitude (far * unit) then some far
  else none

/-- The shortest decimal that rounds to a finite nonzero magnitude.  Nine
digits always suffice. -/
def shortest (magnitude : Nat) : Decimal :=
  let top := leadingIndex (scaledValue magnitude) 92
  let hit := (List.range 9).findSome? fun extra =>
    (onGrid? magnitude (top - extra)).map fun c => (⟨c, ((top - extra : Nat) : Int) - 54⟩ : Decimal)
  hit.getD ⟨0, 0⟩

end Binary32

end Abacus
