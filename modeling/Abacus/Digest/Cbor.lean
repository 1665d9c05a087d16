import Abacus.Text.Bytes

/-!
# Concise binary objects

The part of the binary object format that a chunk is encoded in: natural
numbers, byte strings, arrays, maps and null.  Every length and number has its
shortest form, so an object has one encoding.
-/

namespace Abacus

namespace Cbor

/-- The major types of the format that are used here. -/
inductive Major where
  | number | bytes | array | map
  deriving DecidableEq

/-- The number of a major type. -/
def Major.code : Major → Nat
  | .number => 0
  | .bytes => 2
  | .array => 4
  | .map => 5

/-- The `count` low bytes of a number, the highest first. -/
def bigEndian : Nat → Nat → Bytes
  | 0, _ => []
  | count + 1, n => bigEndian count (n / 256) ++ [UInt8.ofNat n]

/-- The head of an item: its major type and a number below `2 ^ 64` in the
shortest form. -/
def head (major : Major) (n : Nat) : Bytes :=
  let top := major.code * 32
  if n < 24 then [UInt8.ofNat (top + n)]
  else if n < 0x100 then UInt8.ofNat (top + 24) :: bigEndian 1 n
  else if n < 0x10000 then UInt8.ofNat (top + 25) :: bigEndian 2 n
  else if n < 0x100000000 then UInt8.ofNat (top + 26) :: bigEndian 4 n
  else UInt8.ofNat (top + 27) :: bigEndian 8 n

/-- A natural number. -/
def number (n : Nat) : Bytes :=
  head .number n

/-- A byte string. -/
def byteString (s : Bytes) : Bytes :=
  head .bytes s.length ++ s

/-- An array of encoded items. -/
def array (items : List Bytes) : Bytes :=
  head .array items.length ++ items.flatten

/-- A map of encoded keys to encoded items. -/
def map (entries : List (Bytes × Bytes)) : Bytes :=
  head .map entries.length ++ entries.flatMap fun e => e.1 ++ e.2

/-- The null item. -/
def null : Bytes := [0xf6]

end Cbor

end Abacus
