import Abacus.Text.Utf8
import Abacus.Text.Printable

/-!
# Quoted characters and texts

A character or a text is quoted for a message by writing the printable
characters as they are and all others as escapes.  The quote mark itself and
the backslash are always escaped.
-/

namespace Abacus

/-- The letter of the short escape of a control character, if it has one. -/
def shortEscape? (code : Nat) : Option UInt8 :=
  match code with
  | 0x07 => some 0x61
  | 0x08 => some 0x62
  | 0x09 => some 0x74
  | 0x0a => some 0x6e
  | 0x0b => some 0x76
  | 0x0c => some 0x66
  | 0x0d => some 0x72
  | _ => none

/-- One character inside quotes of the kind `mark`. -/
def escapeChar (mark : Char) (c : Char) : Bytes :=
  let n := c.toNat
  if c = mark ∨ c = '\\' then 0x5c :: String.utf8EncodeChar c
  else if isPrintable c then String.utf8EncodeChar c
  else
    match shortEscape? n with
    | some letter => [0x5c, letter]
    | none =>
      if n < 0x80 then utf8 "\\x" ++ Bytes.hexLower 2 n
      else if n < 0x10000 then utf8 "\\u" ++ Bytes.hexLower 4 n
      else utf8 "\\U" ++ Bytes.hexLower 8 n

/-- One glyph inside double quotes; a stray byte is written by its number. -/
def escapeGlyph : Glyph → Bytes
  | .char c => escapeChar '"' c
  | .stray b => utf8 "\\x" ++ Bytes.hexLower 2 b.toNat

/-- A character in single quotes. -/
def quoteChar (c : Char) : Bytes :=
  0x27 :: escapeChar '\'' c ++ [0x27]

/-- A text in double quotes. -/
def quoteText (s : Bytes) : Bytes :=
  0x22 :: s.glyphs.flatMap escapeGlyph ++ [0x22]

end Abacus
