import Abacus.Text.Quoted
import Abacus.Token.Kind

/-!
# Scanning

A source text falls into pieces from front to back: blanks, comments, tokens
and faults.  Each piece takes as many bytes as its class allows, so a token is
always the longest one that starts where it starts.  A fault does not end the
scan: its bytes are skipped.

`pieces` gives all pieces with their offsets; `scan` keeps the tokens, ends
them with the end of the input, and keeps the faults beside them.
-/

namespace Abacus

/-- What is wrong where no token starts. -/
inductive LexFault where
  /-- A character or a stray byte with which no token starts. -/
  | unexpected (g : Glyph)
  /-- A quote that opens a string which is never closed. -/
  | unterminated
  deriving DecidableEq

/-- The fault in words. -/
def LexFault.message : LexFault → Bytes
  | .unexpected (.char c) => utf8 "unexpected character " ++ quoteChar c
  | .unexpected (.stray b) => utf8 "unexpected character byte 0x" ++ Bytes.hexUpper 2 b.toNat
  | .unterminated => utf8 "unterminated string"

/-- The class of a piece. -/
inductive PieceKind where
  | blank
  | comment
  | token (k : TokenKind)
  | fault (f : LexFault)
  deriving DecidableEq

/-- A piece of a source text and how many bytes it takes. -/
structure Piece where
  kind : PieceKind
  size : Nat
  deriving DecidableEq

namespace Scan

/-- Whether a byte is skipped between tokens. -/
def isBlank (b : UInt8) : Bool :=
  b = 0x20 || b = 0x09 || b = 0x0d || b = 0x0a

/-- How many bytes at the head of `s` satisfy `p`. -/
def run (p : UInt8 → Bool) (s : Bytes) : Nat :=
  (s.takeWhile p).length

/-- A number whose first digit has been read.  A point belongs to it only when
a digit follows the point. -/
def number (rest : Bytes) : Piece :=
  let whole := run Bytes.isDigit rest
  match rest.drop whole with
  | 0x2e :: d :: tail =>
    if Bytes.isDigit d then
      ⟨.token .float, 1 + whole + 1 + run Bytes.isDigit (d :: tail)⟩
    else ⟨.token .integer, 1 + whole⟩
  | _ => ⟨.token .integer, 1 + whole⟩

/-- A word whose first letter has been read: a reserved word or an identifier. -/
def word (b : UInt8) (rest : Bytes) : Piece :=
  let letters := b :: rest.takeWhile Bytes.isWord
  match Word.ofText? letters with
  | some w => ⟨.token (.word w), letters.length⟩
  | none => ⟨.token .identifier, letters.length⟩

/-- A string whose opening quote has been read.  It has no escapes and may run
over several lines. -/
def string (rest : Bytes) : Piece :=
  let inside := run (· ≠ 0x22) rest
  if inside < rest.length then ⟨.token .string, inside + 2⟩
  else ⟨.fault .unterminated, inside + 1⟩

/-- The marks of two bytes. -/
def wideMarks : List Mark :=
  Mark.all.filter fun m => m.text.length = 2

/-- The marks of one byte. -/
def narrowMarks : List Mark :=
  Mark.all.filter fun m => m.text.length = 1

/-- The longest mark at the head of `s`. -/
def mark? (s : Bytes) : Option Mark :=
  match wideMarks.find? fun m => m.text.isPrefixOf s with
  | some m => some m
  | none => narrowMarks.find? fun m => m.text.isPrefixOf s

/-- A mark at the head of the text, or the glyph there as a fault. -/
def markOrFault (b : UInt8) (rest : Bytes) : Piece :=
  match mark? (b :: rest) with
  | some m => ⟨.token (.mark m), m.text.length⟩
  | none => ⟨.fault (.unexpected (Glyph.head b rest)), (Glyph.head b rest).size⟩

/-- The piece at the head of `b :: rest`. -/
def piece (b : UInt8) (rest : Bytes) : Piece :=
  if isBlank b then ⟨.blank, 1⟩
  else if b = 0x2f ∧ rest.head? = some 0x2f then
    ⟨.comment, 1 + run (· ≠ Bytes.newline) rest⟩
  else if Bytes.isDigit b then number rest
  else if Bytes.isLetter b || b = 0x5f then word b rest
  else if b = 0x22 then string rest
  else markOrFault b rest

end Scan

/-- A piece and the offset at which it starts. -/
structure PlacedPiece where
  offset : Nat
  piece : Piece
  deriving DecidableEq

/-- The span of the piece. -/
def PlacedPiece.span (p : PlacedPiece) : Span :=
  ⟨p.offset, p.offset + p.piece.size⟩

/-- The pieces of the text that starts at `offset`, after `skip` bytes that
belong to the piece before. -/
def piecesFrom : Nat → Nat → Bytes → List PlacedPiece
  | _, _, [] => []
  | offset, skip + 1, _ :: s => piecesFrom (offset + 1) skip s
  | offset, 0, b :: s =>
    ⟨offset, Scan.piece b s⟩ :: piecesFrom (offset + 1) ((Scan.piece b s).size - 1) s

/-- The pieces of a source text. -/
def pieces (source : Bytes) : List PlacedPiece :=
  piecesFrom 0 0 source

/-- A fault and the span that its report shows. -/
structure PlacedFault where
  fault : LexFault
  span : Span
  deriving DecidableEq

/-- The token of a piece, if it is one. -/
def PlacedPiece.token? (p : PlacedPiece) : Option Token :=
  match p.piece.kind with
  | .token k => some ⟨k, p.span⟩
  | _ => none

/-- The fault of a piece, if it is one.  An unclosed string is shown by its
opening quote. -/
def PlacedPiece.fault? (p : PlacedPiece) : Option PlacedFault :=
  match p.piece.kind with
  | .fault .unterminated => some ⟨.unterminated, ⟨p.offset, p.offset + 1⟩⟩
  | .fault f => some ⟨f, p.span⟩
  | _ => none

/-- The token that ends every scan. -/
def endToken (source : Bytes) : Token :=
  ⟨.endOfInput, ⟨source.length, source.length⟩⟩

/-- The tokens and the faults of a source text. -/
structure Scanned where
  tokens : List Token
  faults : List PlacedFault
  deriving DecidableEq

/-- Scans a source text. -/
def scan (source : Bytes) : Scanned :=
  let ps := pieces source
  ⟨ps.filterMap PlacedPiece.token? ++ [endToken source], ps.filterMap PlacedPiece.fault?⟩

/-- A token and how many faults have been met up to it. -/
structure Pulled where
  token : Token
  faults : Nat
  deriving DecidableEq

/-- The tokens of some pieces, each with the number of faults before it. -/
def pulledFrom (final : Token) : Nat → List PlacedPiece → List Pulled
  | faults, [] => [⟨final, faults⟩]
  | faults, p :: ps =>
    match p.token? with
    | some t => ⟨t, faults⟩ :: pulledFrom final faults ps
    | none => pulledFrom final (faults + if p.fault?.isSome then 1 else 0) ps

/-- The results of pulling `calls` tokens one after another; the end of the
input is given again and again. -/
def pull (source : Bytes) (calls : Nat) : List Pulled :=
  let all := pulledFrom (endToken source) 0 (pieces source)
  all.take calls ++
    List.replicate (calls - all.length) ⟨endToken source, (scan source).faults.length⟩

end Abacus
