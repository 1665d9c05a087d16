import Abacus.Editor.Position
import Abacus.Text.Letter

/-!
# Completing a word

The words that can be completed are the two truth literals.  An editor
completes the word before the cursor, the prompt the word at the end of a line.
The two find the word by rules of their own.
-/

namespace Abacus

/-- The words that can be completed. -/
def literalWords : List Bytes :=
  [utf8 "true", utf8 "false"]

/-- The words that start with `word`; none when it is empty. -/
def completions (word : Bytes) : List Bytes :=
  if word.isEmpty then [] else literalWords.filter fun w => word.isPrefixOf w

/-- Whether a byte, read as the character with its number, is a letter, a digit
or an underscore. -/
def isWordCode (b : UInt8) : Bool :=
  isLetterCode b.toNat || isDigitCode b.toNat || b = 0x5f

/-- The bytes before a position that form a word, each read as a character of
its own. -/
def Bytes.wordBefore (text : Bytes) (p : Position) : Bytes :=
  let before := text.take (text.offsetAt p)
  (before.reverse.takeWhile isWordCode).reverse

/-- Whether a glyph is an ASCII letter, digit or underscore. -/
def Glyph.isAsciiWord : Glyph → Bool
  | .char c => c.toNat < 0x80 && Bytes.isWord (UInt8.ofNat c.toNat)
  | .stray _ => false

/-- A line divided behind the first byte of its last glyph that belongs to no
word. -/
def Bytes.splitLastWord (line : Bytes) : Bytes × Bytes :=
  let back := line.glyphs.reverse
  let word := back.takeWhile Glyph.isAsciiWord
  let kept :=
    match back.drop word.length with
    | g :: _ => line.length - word.length - (g.size - 1)
    | [] => 0
  (line.take kept, line.drop kept)

/-- The lines that a line can be completed to. -/
def completeLine (line : Bytes) : List Bytes :=
  let (head, word) := line.splitLastWord
  (completions word).map (head ++ ·)

end Abacus
