/-!
# Bytes

Every text that the calculator reads or writes is a list of bytes.  A source
file need not be valid UTF-8, and a report quotes its lines as they stand, so
no text here is a `String`.

The module also holds the number texts that the reports are made of: decimal
numbers, hexadecimal numbers of a least width, and padding with spaces.
-/

namespace Abacus

/-- A text as its bytes. -/
abbrev Bytes := List UInt8

/-- The bytes of a string in UTF-8. -/
def utf8 (s : String) : Bytes :=
  s.toList.flatMap String.utf8EncodeChar

namespace Bytes

/-- The byte of a line end. -/
def newline : UInt8 := 0x0a

/-- The byte of a blank. -/
def blank : UInt8 := 0x20

/-- One byte per ASCII character of `cs`. -/
def ofAscii (cs : List Char) : Bytes :=
  cs.map fun c => UInt8.ofNat c.toNat

/-- The bytes from `start` up to `stop`. -/
def slice (s : Bytes) (start stop : Nat) : Bytes :=
  (s.drop start).take (stop - start)

/-- A natural number in decimal digits. -/
def ofNat (n : Nat) : Bytes :=
  ofAscii (Nat.toDigits 10 n)

/-- An integer in decimal digits, with a sign when it is negative. -/
def ofInt : Int → Bytes
  | .ofNat n => ofNat n
  | .negSucc n => 0x2d :: ofNat (n + 1)

/-- `count` copies of `b`. -/
def copies (count : Nat) (b : UInt8) : Bytes :=
  List.replicate count b

/-- Fills `s` on the left with `b` up to `width` bytes. -/
def padLeft (width : Nat) (b : UInt8) (s : Bytes) : Bytes :=
  copies (width - s.length) b ++ s

/-- Fills `s` on the right with blanks up to `width` bytes. -/
def padRight (width : Nat) (s : Bytes) : Bytes :=
  s ++ copies (width - s.length) blank

/-- A number in lower-case hexadecimal digits, at least `width` of them. -/
def hexLower (width n : Nat) : Bytes :=
  padLeft width 0x30 (ofAscii (Nat.toDigits 16 n))

/-- A number in upper-case hexadecimal digits, at least `width` of them. -/
def hexUpper (width n : Nat) : Bytes :=
  padLeft width 0x30 (ofAscii ((Nat.toDigits 16 n).map Char.toUpper))

/-- The texts of `parts` with `sep` between each two of them. -/
def join (sep : Bytes) (parts : List Bytes) : Bytes :=
  (parts.intersperse sep).flatten

/-- Splits at every byte `b`; the pieces hold no `b`, and there is one more
piece than there are bytes `b`. -/
def splitOn (b : UInt8) : Bytes → List Bytes
  | [] => [[]]
  | c :: s =>
    if c = b then [] :: splitOn b s
    else
      match splitOn b s with
      | [] => [[c]]
      | piece :: pieces => (c :: piece) :: pieces

/-- The bytes after the last `b`, which is all of `s` when it holds none. -/
def afterLast (b : UInt8) (s : Bytes) : Bytes :=
  (s.reverse.takeWhile (· ≠ b)).reverse

/-- Whether `b` is an ASCII digit. -/
def isDigit (b : UInt8) : Bool :=
  0x30 ≤ b && b ≤ 0x39

/-- Whether `b` is an ASCII letter. -/
def isLetter (b : UInt8) : Bool :=
  (0x61 ≤ b && b ≤ 0x7a) || (0x41 ≤ b && b ≤ 0x5a)

/-- Whether `b` may stand in a word: a letter, a digit or an underscore. -/
def isWord (b : UInt8) : Bool :=
  isLetter b || isDigit b || b = 0x5f

/-- The number that a list of decimal digits denotes. -/
def digitsValue (ds : Bytes) : Nat :=
  ds.foldl (fun n d => 10 * n + (d.toNat - 0x30)) 0

end Bytes

end Abacus
