import Abacus.Text.Bytes

/-!
# Characters of a byte text

A byte text is read as a sequence of glyphs.  A glyph is a character whose
UTF-8 bytes stand there, or one stray byte where no character starts.  Every
text has exactly one reading, and its glyphs take up all of its bytes.
-/

namespace Abacus

/-- One step of reading a byte text: a character, or a byte that starts none. -/
inductive Glyph where
  /-- A character in its shortest UTF-8 form. -/
  | char (c : Char)
  /-- A byte at which no character starts. -/
  | stray (b : UInt8)
  deriving DecidableEq

namespace Glyph

/-- How many bytes the glyph takes up. -/
def size : Glyph → Nat
  | .char c => c.utf8Size
  | .stray _ => 1

/-- The bytes that the glyph takes up. -/
def bytes : Glyph → Bytes
  | .char c => String.utf8EncodeChar c
  | .stray b => [b]

/-- How many UTF-16 units the glyph counts for; a stray byte counts one. -/
def units16 : Glyph → Nat
  | .char c => if c.toNat < 0x10000 then 1 else 2
  | .stray _ => 1

/-- Whether the glyph is a character. -/
def isChar : Glyph → Bool
  | .char _ => true
  | .stray _ => false

/-- The six payload bits of a continuation byte. -/
def payload? (b : UInt8) : Option Nat :=
  if 0x80 ≤ b ∧ b ≤ 0xbf then some (b.toNat - 0x80) else none

/-- The character with number `code`, if `code` is at least `least` and is the
number of a character. -/
def charFrom? (least code : Nat) : Option Char :=
  if least ≤ code then
    if h : code.isValidChar then some (Char.ofNatAux code h) else none
  else none

/-- The character whose bytes stand at the head of `b :: rest`, if there is one.
Longer forms than needed, surrogates and numbers above the last character are
refused. -/
def charAt? (b : UInt8) (rest : Bytes) : Option Char :=
  let n := b.toNat
  if n < 0x80 then charFrom? 0 n
  else if n < 0xc2 then none
  else if n < 0xe0 then
    match rest with
    | b1 :: _ => do
      let p1 ← payload? b1
      charFrom? 0x80 ((n - 0xc0) * 0x40 + p1)
    | _ => none
  else if n < 0xf0 then
    match rest with
    | b1 :: b2 :: _ => do
      let p1 ← payload? b1
      let p2 ← payload? b2
      charFrom? 0x800 ((n - 0xe0) * 0x1000 + p1 * 0x40 + p2)
    | _ => none
  else if n < 0xf5 then
    match rest with
    | b1 :: b2 :: b3 :: _ => do
      let p1 ← payload? b1
      let p2 ← payload? b2
      let p3 ← payload? b3
      charFrom? 0x10000 ((n - 0xf0) * 0x40000 + p1 * 0x1000 + p2 * 0x40 + p3)
    | _ => none
  else none

/-- The glyph at the head of `b :: rest`. -/
def head (b : UInt8) (rest : Bytes) : Glyph :=
  match charAt? b rest with
  | some c => .char c
  | none => .stray b

end Glyph

namespace Bytes

/-- The glyphs of a text after its first `skip` bytes.  The skipped bytes are
the rest of a glyph that has been read. -/
def glyphsFrom : Nat → Bytes → List Glyph
  | _, [] => []
  | skip + 1, _ :: s => glyphsFrom skip s
  | 0, b :: s => Glyph.head b s :: glyphsFrom ((Glyph.head b s).size - 1) s

/-- The glyphs of a text in order. -/
def glyphs (s : Bytes) : List Glyph :=
  glyphsFrom 0 s

/-- The text that a sequence of glyphs takes up. -/
def ofGlyphs (gs : List Glyph) : Bytes :=
  gs.flatMap Glyph.bytes

/-- Whether the whole text is valid UTF-8. -/
def isUtf8 (s : Bytes) : Bool :=
  s.glyphs.all Glyph.isChar

/-- The characters of a text, without its stray bytes. -/
def chars (s : Bytes) : List Char :=
  s.glyphs.filterMap fun
    | .char c => some c
    | .stray _ => none

end Bytes

end Abacus
