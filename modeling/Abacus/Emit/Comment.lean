import Abacus.Text.Blank

/-!
# The comment above the function

The comment quotes the source on one line.  Its white space is collapsed, so
the text has no line end, and pairs of quote marks become curly quotes as the
formatting of comments asks for.
-/

namespace Abacus

namespace Comment

/-- The source on one line; empty when it is blank. -/
def collapse (source : Bytes) : Bytes :=
  Bytes.join [Bytes.blank] source.words

/-- Two single quotes become a closing curly quote, and exactly two backquotes
an opening one; a longer run of backquotes stays.  `afterTick` tells whether a
backquote that stays stands before the text, and `skip` whether the first byte
of the text belongs to a pair that has been replaced. -/
def curlFrom : (afterTick skip : Bool) → Bytes → Bytes
  | _, _, [] => []
  | _, true, _ :: s => curlFrom false false s
  | afterTick, false, b :: s =>
    if b = 0x27 ∧ s.head? = some 0x27 then utf8 "”" ++ curlFrom false true s
    else if b = 0x60 then
      if afterTick = false ∧ s.head? = some 0x60 ∧ s.tail.head? ≠ some 0x60 then
        utf8 "“" ++ curlFrom false true s
      else b :: curlFrom true false s
    else b :: curlFrom false false s

/-- The text with curly quotes. -/
def curl (s : Bytes) : Bytes :=
  curlFrom false false s

/-- Whether a glyph may stand in a file: no stray byte, no NUL and no byte order
mark. -/
def isWritable : Glyph → Bool
  | .char c => c.toNat ≠ 0 && c.toNat ≠ 0xfeff
  | .stray _ => false

/-- Whether a text may stand in a comment. -/
def isWritableText (s : Bytes) : Bool :=
  s.glyphs.all isWritable

end Comment

end Abacus
