import Abacus.Text.Bytes

/-!
# Spans

A span is a half-open range of byte offsets into a source text.  Spans that a
caller makes up may lie outside the text, so the ends are integers.
-/

namespace Abacus

/-- The bytes from `start` up to, and without, `stop`. -/
structure Span where
  start : Int
  stop : Int
  deriving DecidableEq

namespace Span

/-- How many bytes the span covers; negative when its ends are reversed. -/
def length (s : Span) : Int :=
  s.stop - s.start

/-- The smallest span that holds both. -/
def cover (s t : Span) : Span :=
  ⟨if s.start ≤ t.start then s.start else t.start,
   if s.stop ≤ t.stop then t.stop else s.stop⟩

/-- Whether the byte at `offset` lies in the span. -/
def contains (s : Span) (offset : Int) : Bool :=
  s.start ≤ offset && offset < s.stop

/-- The span in writing, as in `3..7`. -/
def text (s : Span) : Bytes :=
  Bytes.ofInt s.start ++ utf8 ".." ++ Bytes.ofInt s.stop

/-- The span that covers all of `spans`, and the empty span at the start when
there are none. -/
def coverAll : List Span → Span
  | [] => ⟨0, 0⟩
  | s :: spans => spans.foldl cover s

/-- The bytes of `source` that the span covers. -/
def slice (s : Span) (source : Bytes) : Bytes :=
  source.slice s.start.toNat s.stop.toNat

end Span

end Abacus
