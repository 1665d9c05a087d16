import Abacus.Text.Bytes
import Abacus.Number.Shortest

/-!
# The text of a floating-point number

A number is written with the fewest digits that read back.  It is positional
when its first digit stands at a place from `10 ^ -4` to `10 ^ 5`, and has an
exponent of at least two digits with a sign otherwise.
-/

namespace Abacus

/-- How a decimal is laid out. -/
structure DecimalLayout where
  /-- The least exponent of the first digit that is written positionally. -/
  lowest : Int
  /-- The least exponent above those that are written positionally. -/
  limit : Int
  /-- The least number of exponent digits. -/
  exponentWidth : Nat

/-- The layout of the numbers that the calculator prints. -/
def DecimalLayout.standard : DecimalLayout := ⟨-4, 6, 2⟩

namespace DecimalLayout

/-- The digits without the zeros at their end. -/
def stripZeros (digits : Bytes) : Bytes :=
  (digits.reverse.dropWhile (· = 0x30)).reverse

/-- An exponent with its sign. -/
def exponentText (layout : DecimalLayout) (x : Int) : Bytes :=
  (if x < 0 then 0x2d else 0x2b) ::
    Bytes.padLeft layout.exponentWidth 0x30 (Bytes.ofNat x.natAbs)

/-- The digits with the point after the first one, and an exponent. -/
def scientific (layout : DecimalLayout) (digits : Bytes) (x : Int) : Bytes :=
  let mantissa :=
    match digits with
    | [] => [0x30]
    | [d] => [d]
    | d :: ds => d :: 0x2e :: ds
  mantissa ++ 0x65 :: layout.exponentText x

/-- The digits with the point where the exponent `x` of the first one puts it. -/
def positional (digits : Bytes) (x : Int) : Bytes :=
  if x < 0 then
    utf8 "0." ++ Bytes.copies (x.natAbs - 1) 0x30 ++ digits
  else
    let whole := x.toNat + 1
    let front := digits.take whole
    let back := digits.drop whole
    let integer := front ++ Bytes.copies (whole - front.length) 0x30
    if back.isEmpty then integer else integer ++ 0x2e :: back

/-- A positive decimal in its layout. -/
def write (layout : DecimalLayout) (d : Binary32.Decimal) : Bytes :=
  let all := Bytes.ofNat d.coefficient
  let digits := stripZeros all
  let x := d.exponent + all.length - 1
  if x < layout.lowest ∨ layout.limit ≤ x then layout.scientific digits x
  else positional digits x

end DecimalLayout

namespace Binary32

/-- The text of a magnitude that is finite. -/
def magnitudeText (magnitude : Nat) : Bytes :=
  if magnitude = 0 then [0x30] else DecimalLayout.standard.write (shortest magnitude)

/-- The text of a number. -/
def text (x : Binary32) : Bytes :=
  if x.isNaN then utf8 "NaN"
  else if x.isInfinite then utf8 (if x.isNegative then "-Inf" else "+Inf")
  else if x.isNegative then 0x2d :: magnitudeText x.magnitude
  else magnitudeText x.magnitude

end Binary32

end Abacus
