import Abacus.Source.Span

/-!
# Lines

Where an offset of a source text stands: its line and column, both counted from
one, and the ends of the line that holds it.  An offset outside the text counts
as the nearest end of the text.
-/

namespace Abacus

/-- A line and a column, both counted from one; the column counts bytes. -/
structure Place where
  line : Nat
  column : Nat
  deriving DecidableEq

namespace Bytes

/-- The offset inside `source` that is nearest to `offset`. -/
def clamp (source : Bytes) (offset : Int) : Nat :=
  if offset.toNat ≤ source.length then offset.toNat else source.length

/-- How many bytes stand between the last line end of `s` and its end. -/
def tailLength (s : Bytes) : Nat :=
  (s.reverse.takeWhile (· ≠ newline)).length

/-- How many bytes stand before the first line end of `s`. -/
def lineLength (s : Bytes) : Nat :=
  (s.takeWhile (· ≠ newline)).length

/-- The line and column of an offset. -/
def place (source : Bytes) (offset : Int) : Place :=
  let before := source.take (source.clamp offset)
  ⟨before.count newline + 1, tailLength before + 1⟩

/-- The two ends of the line that holds an offset.  The line end, and one
carriage return before it, are left out. -/
def lineBounds (source : Bytes) (offset : Int) : Nat × Nat :=
  let o := source.clamp offset
  let start := o - tailLength (source.take o)
  let stop := o + lineLength (source.drop o)
  if start < stop ∧ source[stop - 1]? = some 0x0d then (start, stop - 1) else (start, stop)

end Bytes

end Abacus
