import Abacus.Text.Utf8

/-!
# Lines and their history

The lines of the input as the prompt reads them, and the history of the lines
that were entered, which outlives a session in a file.
-/

namespace Abacus

/-- A line of the input. -/
structure InputLine where
  text : Bytes
  /-- Whether the line was cut for its length and goes on in the next one. -/
  isCut : Bool
  deriving DecidableEq

/-- How many bytes of a line are read at once, its end included. -/
def lineWindow : Nat := 4096

namespace InputLine

/-- The line whose bytes before the line end are given in reverse; one carriage
return there belongs to the line end. -/
def ended : Bytes → InputLine
  | 0x0d :: back => ⟨back.reverse, false⟩
  | back => ⟨back.reverse, false⟩

/-- The lines of `s`, given the bytes of the current line in reverse and how many
more fit into the window.  A line that fills the window is cut there, but before
a carriage return, whose line feed may follow. -/
def readFrom : Nat → Bytes → Bytes → List InputLine
  | _, [], [] => []
  | _, b :: back, [] => [⟨(b :: back).reverse, false⟩]
  | room, back, b :: s =>
    if b = Bytes.newline then ended back :: readFrom lineWindow [] s
    else if 1 < room then readFrom (room - 1) (b :: back) s
    else if b = 0x0d then ⟨back.reverse, true⟩ :: readFrom (lineWindow - 1) [b] s
    else ⟨(b :: back).reverse, true⟩ :: readFrom lineWindow [] s

/-- The lines of a text.  A last line needs no line end. -/
def read (s : Bytes) : List InputLine :=
  readFrom lineWindow [] s

end InputLine

/-- The lines that were entered, the oldest first. -/
abbrev History := List Bytes

namespace History

/-- How many lines are kept. -/
def maxLines : Nat := 1000

/-- The newest lines, as many as are kept. -/
def newest (h : History) : History :=
  h.drop (h.length - maxLines)

/-- Adds a line unless it repeats the one before it. -/
def add (h : History) (line : Bytes) : History :=
  if h.getLast? = some line then h else newest (h ++ [line])

/-- The history in a file.  It ends before a line that is too long or no UTF-8. -/
def ofText (s : Bytes) : History :=
  newest (((InputLine.read s).takeWhile fun l => !l.isCut && l.text.isUtf8).map (·.text))

/-- The text of a history, one line each. -/
def text (h : History) : Bytes :=
  h.flatMap (· ++ [Bytes.newline])

end History

end Abacus
