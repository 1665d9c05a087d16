import Abacus.Text.Bytes
import Abacus.Number.Binary32

/-!
# Reading numbers

An integer text is a sign and decimal digits, and denotes a 32-bit integer.  A
floating-point text is a sign and a decimal with an optional point and
exponent; a hexadecimal form with a binary exponent, the names of the two
special values, and underscores between digits are read as well.  A
floating-point text denotes the number nearest to its exact value.
-/

namespace Abacus

/-- Removes a sign from the head of a text and tells whether it was a minus. -/
def splitSign : Bytes → Bool × Bytes
  | 0x2b :: s => (false, s)
  | 0x2d :: s => (true, s)
  | s => (false, s)

/-- The 32-bit integer that a text denotes. -/
def readInt32? (s : Bytes) : Option Int32 :=
  let (negative, digits) := splitSign s
  if digits.isEmpty || !digits.all Bytes.isDigit then none
  else
    let n := Bytes.digitsValue digits
    if negative then
      if n ≤ 0x80000000 then some (Int32.ofInt (-(n : Int))) else none
    else
      if n < 0x80000000 then some (Int32.ofInt n) else none

/-! ## Floating-point texts -/

/-- Why a text denotes no floating-point number. -/
inductive FloatFault where
  /-- The text is no number. -/
  | malformed
  /-- The nearest number is infinite. -/
  | outOfRange
  deriving DecidableEq

/-- The exact value `coefficient * radix ^ exponent`. -/
structure ScaledValue where
  coefficient : Nat
  radix : Nat
  exponent : Int

/-- The magnitude nearest to an exact value. -/
def ScaledValue.magnitude (v : ScaledValue) : Nat :=
  if 0 ≤ v.exponent then
    Binary32.nearest (v.coefficient * Nat.pow v.radix v.exponent.toNat * Binary32.oneSteps) 1
  else
    Binary32.nearest (v.coefficient * Binary32.oneSteps) (Nat.pow v.radix v.exponent.natAbs)

/-- The lower-case form of an ASCII byte. -/
def Bytes.lowerByte (b : UInt8) : UInt8 :=
  if 0x41 ≤ b && b ≤ 0x5a then b + 0x20 else b

/-- The value of a hexadecimal digit. -/
def Bytes.hexValue? (b : UInt8) : Option Nat :=
  let c := Bytes.lowerByte b
  if Bytes.isDigit c then some (c.toNat - 0x30)
  else if 0x61 ≤ c && c ≤ 0x66 then some (c.toNat - 0x57)
  else none

/-- The value of a digit in the given base, ten or sixteen. -/
def digitIn? (base : Nat) (b : UInt8) : Option Nat :=
  if base = 16 then Bytes.hexValue? b
  else if Bytes.isDigit b then some (b.toNat - 0x30)
  else none

/-- What has been read of a mantissa. -/
structure Mantissa where
  value : Nat
  digits : Nat
  /-- How many digits stand behind the point; `none` before the point. -/
  places : Option Nat

/-- Reads digits, underscores and at most one point. -/
def readMantissa (base : Nat) : Mantissa → Bytes → Mantissa × Bytes
  | m, [] => (m, [])
  | m, b :: s =>
    if b = 0x5f then readMantissa base m s
    else if b = 0x2e then
      match m.places with
      | none => readMantissa base { m with places := some 0 } s
      | some _ => (m, b :: s)
    else
      match digitIn? base b with
      | some d =>
        readMantissa base ⟨m.value * base + d, m.digits + 1, m.places.map (· + 1)⟩ s
      | none => (m, b :: s)

/-- Reads the digits of an exponent.  An exponent past ten thousand stops
growing: such a number is zero or out of range anyway. -/
def readExponentDigits : Nat → Bytes → Nat × Bytes
  | e, [] => (e, [])
  | e, b :: s =>
    if b = 0x5f then readExponentDigits e s
    else if Bytes.isDigit b then
      readExponentDigits (if e < 10000 then 10 * e + (b.toNat - 0x30) else e) s
    else (e, b :: s)

/-- Reads a signed exponent, which starts with a digit. -/
def readExponent? (s : Bytes) : Option (Int × Bytes) :=
  let (negative, rest) := splitSign s
  match rest with
  | b :: _ =>
    if Bytes.isDigit b then
      let (e, tail) := readExponentDigits 0 rest
      some (if negative then -(e : Int) else e, tail)
    else none
  | [] => none

/-- Whether every underscore stands between two digits.  `afterDigit` and
`afterScore` tell what the last byte was. -/
def underscoresFit (base : Nat) : Bool → Bool → Bytes → Bool
  | _, afterScore, [] => !afterScore
  | afterDigit, afterScore, b :: s =>
    if (digitIn? base b).isSome then underscoresFit base true false s
    else if b = 0x5f then afterDigit && underscoresFit base false true s
    else !afterScore && underscoresFit base false false s

/-- The exact value of a text without its sign, in the given base. -/
def readScaled? (base : Nat) (s : Bytes) : Option ScaledValue := do
  let (m, rest) := readMantissa base ⟨0, 0, none⟩ s
  if m.digits = 0 then none
  else
    let places := (m.places.getD 0 : Int)
    let mark : UInt8 := if base = 16 then 0x70 else 0x65
    match rest with
    | [] => if base = 16 then none else some ⟨m.value, 10, -places⟩
    | b :: tail =>
      if Bytes.lowerByte b = mark then
        let (e, extra) ← readExponent? tail
        if extra.isEmpty then
          some (if base = 16 then ⟨m.value, 2, e - 4 * places⟩ else ⟨m.value, 10, e - places⟩)
        else none
      else none

/-- The name of a special value, in any case of letters. -/
def readSpecial? (signed negative : Bool) (s : Bytes) : Option Binary32 :=
  let word := s.map Bytes.lowerByte
  if word = utf8 "inf" ∨ word = utf8 "infinity" then some (Binary32.infinity negative)
  else if !signed ∧ word = utf8 "nan" then some Binary32.nan
  else none

/-- The exact value of a text without its sign. -/
def readUnsigned? (s : Bytes) : Option ScaledValue :=
  match s with
  | 0x30 :: x :: d :: rest =>
    if Bytes.lowerByte x = 0x78 then
      if underscoresFit 16 true false (d :: rest) then readScaled? 16 (d :: rest) else none
    else if underscoresFit 10 false false s then readScaled? 10 s else none
  | _ => if underscoresFit 10 false false s then readScaled? 10 s else none

/-- The number that a text denotes. -/
def readFloat (s : Bytes) : Except FloatFault Binary32 :=
  let (negative, body) := splitSign s
  match readSpecial? (body.length < s.length) negative body with
  | some x => .ok x
  | none =>
    match readUnsigned? body with
    | none => .error .malformed
    | some v =>
      if v.magnitude = Binary32.infMagnitude then .error .outOfRange
      else .ok (Binary32.ofMagnitude negative v.magnitude)

end Abacus
