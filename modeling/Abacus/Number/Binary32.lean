import Abacus.Number.Rounding

/-!
# Binary32 numbers

A floating-point number is its 32-bit pattern: a sign bit, eight exponent bits
and twenty-three fraction bits.  The pattern without the sign is its
*magnitude*.  Every finite number is a whole count of the smallest positive
number `2 ^ -149`; `steps` gives that count, which makes all arithmetic exact
integer arithmetic followed by one rounding, `nearest`.

A result that is not a number always has the pattern `0x7fc00000`.
-/

namespace Abacus

/-- A floating-point number as its bit pattern. -/
structure Binary32 where
  bits : UInt32
  deriving DecidableEq

namespace Binary32

/-- How many magnitudes share an exponent. -/
def binade : Nat := 0x800000

/-- The sign bit of a pattern. -/
def signBit : Nat := 0x80000000

/-- The magnitude of infinity; larger ones are not numbers. -/
def infMagnitude : Nat := 255 * binade

/-- The pattern of the given sign and magnitude. -/
def ofMagnitude (negative : Bool) (magnitude : Nat) : Binary32 :=
  ⟨UInt32.ofNat (if negative then signBit + magnitude else magnitude)⟩

/-- The pattern that stands for "not a number" in every result. -/
def nan : Binary32 := ⟨0x7fc00000⟩

/-- Infinity of the given sign. -/
def infinity (negative : Bool) : Binary32 :=
  ofMagnitude negative infMagnitude

/-- Zero of the given sign. -/
def zero (negative : Bool) : Binary32 :=
  ofMagnitude negative 0

/-- Whether the sign bit is set. -/
def isNegative (x : Binary32) : Bool :=
  signBit ≤ x.bits.toNat

/-- The pattern without its sign bit. -/
def magnitude (x : Binary32) : Nat :=
  x.bits.toNat % signBit

/-- Whether the pattern is not a number. -/
def isNaN (x : Binary32) : Bool :=
  infMagnitude < x.magnitude

/-- Whether the pattern is an infinity. -/
def isInfinite (x : Binary32) : Bool :=
  x.magnitude = infMagnitude

/-- Whether the pattern is a finite number. -/
def isFinite (x : Binary32) : Bool :=
  x.magnitude < infMagnitude

/-- How many times `2 ^ -149` a magnitude denotes. -/
def steps (magnitude : Nat) : Nat :=
  if magnitude < binade then magnitude
  else (binade + magnitude % binade) * Nat.pow 2 (magnitude / binade - 1)

/-- How many steps the number one counts. -/
def oneSteps : Nat := Nat.pow 2 149

/-- The signed count of steps of a finite number. -/
def signedSteps (x : Binary32) : Int :=
  if x.isNegative then -(steps x.magnitude : Int) else steps x.magnitude

/-- The magnitude nearest to `num / den` steps; a tie goes to the even pattern,
and what is too large becomes infinity. -/
def nearest (num den : Nat) : Nat :=
  let shift := (num / den).log2 - 23
  let m := shift * binade + roundHalfEven num (den * Nat.pow 2 shift)
  if m ≤ infMagnitude then m else infMagnitude

/-! ## Arithmetic -/

/-- The number with the other sign. -/
def neg (x : Binary32) : Binary32 :=
  ofMagnitude (!x.isNegative) x.magnitude

/-- The sum, rounded once.  An exact zero is negative only when both terms are. -/
def add (x y : Binary32) : Binary32 :=
  if x.isNaN || y.isNaN then nan
  else if x.isInfinite then
    if y.isInfinite && x.isNegative != y.isNegative then nan else x
  else if y.isInfinite then y
  else
    let s := x.signedSteps + y.signedSteps
    if s = 0 then zero (x.isNegative && y.isNegative)
    else ofMagnitude (s < 0) (nearest s.natAbs 1)

/-- The difference, rounded once. -/
def sub (x y : Binary32) : Binary32 :=
  if y.isNaN then nan else add x (neg y)

/-- The product, rounded once. -/
def mul (x y : Binary32) : Binary32 :=
  let negative := x.isNegative != y.isNegative
  if x.isNaN || y.isNaN then nan
  else if x.isInfinite || y.isInfinite then
    if x.magnitude = 0 || y.magnitude = 0 then nan else infinity negative
  else ofMagnitude negative (nearest (steps x.magnitude * steps y.magnitude) oneSteps)

/-- The quotient, rounded once.  A nonzero number over zero is infinite. -/
def div (x y : Binary32) : Binary32 :=
  let negative := x.isNegative != y.isNegative
  if x.isNaN || y.isNaN then nan
  else if x.isInfinite then
    if y.isInfinite then nan else infinity negative
  else if y.isInfinite then zero negative
  else if y.magnitude = 0 then
    if x.magnitude = 0 then nan else infinity negative
  else ofMagnitude negative (nearest (steps x.magnitude * oneSteps) (steps y.magnitude))

/-! ## Order -/

/-- The place of a number on the line of patterns; zeros of both signs share one. -/
def rank (x : Binary32) : Int :=
  if x.isNegative then -(x.magnitude : Int) else x.magnitude

/-- Equality of numbers: both zeros are equal, and "not a number" equals nothing. -/
def eq (x y : Binary32) : Bool :=
  !x.isNaN && !y.isNaN && x.rank = y.rank

/-- Whether `x` is below `y`; false when one of them is not a number. -/
def lt (x y : Binary32) : Bool :=
  !x.isNaN && !y.isNaN && x.rank < y.rank

/-- Whether `x` is at most `y`; false when one of them is not a number. -/
def le (x y : Binary32) : Bool :=
  !x.isNaN && !y.isNaN && x.rank ≤ y.rank

end Binary32

end Abacus
