import Abacus.Source.Line
import Abacus.Text.Utf8

/-!
# Editor positions

An editor counts lines from zero and the characters of a line in UTF-16 units.
`positionAt` turns a byte offset into such a position, and `offsetAt` turns a
position into the offset of the first character at or behind it.  A position
behind the end of its line counts as that end.
-/

namespace Abacus

/-- A line and a character in it, both counted from zero; a character counts
UTF-16 units. -/
structure Position where
  line : Nat
  character : Nat
  deriving DecidableEq

/-- The positions of the two ends of a span. -/
structure Range where
  start : Position
  stop : Position
  deriving DecidableEq

namespace Bytes

/-- The UTF-16 units of a text. -/
def units16 (s : Bytes) : Nat :=
  s.glyphs.foldr (fun g n => g.units16 + n) 0

/-- The position of an offset; one outside the text counts as the nearest end. -/
def positionAt (text : Bytes) (offset : Int) : Position :=
  let before := text.take (text.clamp offset)
  ⟨before.count newline, units16 (afterLast newline before)⟩

/-- The offset at which the given line starts, if there is such a line. -/
def lineStart? : Nat → Bytes → Option Nat
  | 0, _ => some 0
  | _ + 1, [] => none
  | line + 1, b :: s => (lineStart? (if b = newline then line else line + 1) s).map (· + 1)

/-- How many bytes the glyphs take up that stand before `units` UTF-16 units. -/
def unitsLength : Nat → List Glyph → Nat
  | _, [] => 0
  | 0, _ :: _ => 0
  | units + 1, g :: gs => g.size + unitsLength (units + 1 - g.units16) gs

/-- The offset of a position. -/
def offsetAt (text : Bytes) (p : Position) : Nat :=
  match text.lineStart? p.line with
  | none => text.length
  | some start =>
    let line : Bytes := (text.drop start).takeWhile (· ≠ newline)
    start + unitsLength p.character line.glyphs

/-- The range of a span. -/
def rangeOf (text : Bytes) (s : Span) : Range :=
  ⟨text.positionAt s.start, text.positionAt s.stop⟩

end Bytes

end Abacus
