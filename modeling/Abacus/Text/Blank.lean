import Abacus.Text.Utf8

/-!
# White space

The characters with the White_Space property, and the two operations that the
calculator needs on them: trimming a text at both ends and splitting it into
words.  A stray byte is never white space.
-/

namespace Abacus

/-- Whether the character with this number is white space. -/
def isBlankCode (n : Nat) : Bool :=
  (0x09 ≤ n && n ≤ 0x0d) || n = 0x20 || n = 0x85 || n = 0xa0 || n = 0x1680 ||
    (0x2000 ≤ n && n ≤ 0x200a) || n = 0x2028 || n = 0x2029 || n = 0x202f ||
    n = 0x205f || n = 0x3000

/-- Whether a glyph is white space. -/
def Glyph.isBlank : Glyph → Bool
  | .char c => isBlankCode c.toNat
  | .stray _ => false

namespace Bytes

/-- The text without the white space at its two ends. -/
def trim (s : Bytes) : Bytes :=
  let front := s.glyphs.dropWhile Glyph.isBlank
  ofGlyphs (front.reverse.dropWhile Glyph.isBlank).reverse

/-- The runs of glyphs that are not white space, in order. -/
def wordsOf : List Glyph → List (List Glyph)
  | [] => []
  | g :: gs =>
    if g.isBlank then wordsOf gs
    else
      match gs with
      | [] => [[g]]
      | h :: _ =>
        if h.isBlank then [g] :: wordsOf gs
        else
          match wordsOf gs with
          | [] => [[g]]
          | w :: ws => (g :: w) :: ws

/-- The words of a text, each two of them divided by white space. -/
def words (s : Bytes) : List Bytes :=
  (wordsOf s.glyphs).map ofGlyphs

end Bytes

end Abacus
