import Abacus.Text.Letter
import Abacus.Text.Utf8

/-!
# Go identifiers

A name is a letter or an underscore, followed by letters, digits and
underscores, and no keyword.
-/

namespace Abacus

/-- The words that may not be used as names. -/
def goKeywords : List String :=
  ["break", "case", "chan", "const", "continue", "default", "defer", "else", "fallthrough",
   "for", "func", "go", "goto", "if", "import", "interface", "map", "package", "range",
   "return", "select", "struct", "switch", "type", "var"]

/-- Whether a name may start with the glyph. -/
def Glyph.startsName : Glyph → Bool
  | .char c => isLetterCode c.toNat || c = '_'
  | .stray _ => false

/-- Whether a name may go on with the glyph. -/
def Glyph.continuesName : Glyph → Bool
  | .char c => isLetterCode c.toNat || isDigitCode c.toNat || c = '_'
  | .stray _ => false

/-- Whether a text is a name. -/
def isGoName (s : Bytes) : Bool :=
  match s.glyphs with
  | [] => false
  | g :: gs =>
    g.startsName && gs.all Glyph.continuesName && !goKeywords.any fun w => utf8 w = s

/-- Whether a text may name a package; the underscore alone may not. -/
def isGoPackageName (s : Bytes) : Bool :=
  isGoName s && s ≠ utf8 "_"

end Abacus
