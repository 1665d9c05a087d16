import Abacus.Source.Span

/-!
# Tokens

A token is a kind with the span of its text.  The kinds are the literals, the
marks (operators and delimiters), the reserved words, and the end of the input.
-/

namespace Abacus

/-- Operators and delimiters. -/
inductive Mark where
  | plus | minus | star | slash | bang | equal | less | greater
  | lessLess | greaterGreater | equalEqual | bangEqual | lessEqual | greaterEqual
  | plusEqual | minusEqual | starEqual | slashEqual | ampAmp | pipePipe
  | colon | semicolon | dot | comma | openParen | closeParen
  | openBrace | closeBrace | openBracket | closeBracket
  deriving DecidableEq

namespace Mark

/-- The mark in source text. -/
def text : Mark → Bytes
  | .plus => [0x2b]
  | .minus => [0x2d]
  | .star => [0x2a]
  | .slash => [0x2f]
  | .bang => [0x21]
  | .equal => [0x3d]
  | .less => [0x3c]
  | .greater => [0x3e]
  | .lessLess => [0x3c, 0x3c]
  | .greaterGreater => [0x3e, 0x3e]
  | .equalEqual => [0x3d, 0x3d]
  | .bangEqual => [0x21, 0x3d]
  | .lessEqual => [0x3c, 0x3d]
  | .greaterEqual => [0x3e, 0x3d]
  | .plusEqual => [0x2b, 0x3d]
  | .minusEqual => [0x2d, 0x3d]
  | .starEqual => [0x2a, 0x3d]
  | .slashEqual => [0x2f, 0x3d]
  | .ampAmp => [0x26, 0x26]
  | .pipePipe => [0x7c, 0x7c]
  | .colon => [0x3a]
  | .semicolon => [0x3b]
  | .dot => [0x2e]
  | .comma => [0x2c]
  | .openParen => [0x28]
  | .closeParen => [0x29]
  | .openBrace => [0x7b]
  | .closeBrace => [0x7d]
  | .openBracket => [0x5b]
  | .closeBracket => [0x5d]

/-- The marks in the order of their numbers. -/
def all : List Mark :=
  [.plus, .minus, .star, .slash, .bang, .equal, .less, .greater,
   .lessLess, .greaterGreater, .equalEqual, .bangEqual, .lessEqual, .greaterEqual,
   .plusEqual, .minusEqual, .starEqual, .slashEqual, .ampAmp, .pipePipe,
   .colon, .semicolon, .dot, .comma, .openParen, .closeParen,
   .openBrace, .closeBrace, .openBracket, .closeBracket]

end Mark

/-- Reserved words. -/
inductive Word where
  | «let» | const | struct | fn | «if» | «else» | «for» | «while»
  | u8 | u16 | u32 | u64 | i8 | i16 | i32 | i64 | f32 | f64 | bool
  | true | false
  deriving DecidableEq

namespace Word

/-- The word in source text. -/
def text : Word → Bytes
  | .let => utf8 "let"
  | .const => utf8 "const"
  | .struct => utf8 "struct"
  | .fn => utf8 "fn"
  | .if => utf8 "if"
  | .else => utf8 "else"
  | .for => utf8 "for"
  | .while => utf8 "while"
  | .u8 => utf8 "u8"
  | .u16 => utf8 "u16"
  | .u32 => utf8 "u32"
  | .u64 => utf8 "u64"
  | .i8 => utf8 "i8"
  | .i16 => utf8 "i16"
  | .i32 => utf8 "i32"
  | .i64 => utf8 "i64"
  | .f32 => utf8 "f32"
  | .f64 => utf8 "f64"
  | .bool => utf8 "bool"
  | .true => utf8 "true"
  | .false => utf8 "false"

/-- The words in the order of their numbers. -/
def all : List Word :=
  [.let, .const, .struct, .fn, .if, .else, .for, .while, .u8, .u16, .u32, .u64,
   .i8, .i16, .i32, .i64, .f32, .f64, .bool, .true, .false]

/-- The reserved word with the given text. -/
def ofText? (s : Bytes) : Option Word :=
  all.find? fun w => w.text = s

end Word

/-- What a token is. -/
inductive TokenKind where
  | endOfInput
  | integer
  | float
  | string
  | identifier
  | mark (m : Mark)
  | word (w : Word)
  /-- A number that stands for no kind; no source text has such a token. -/
  | unknown (code : Int)
  deriving DecidableEq

namespace TokenKind

/-- The kinds in the order of their numbers. -/
def all : List TokenKind :=
  [.endOfInput, .integer, .float, .string, .identifier] ++ Mark.all.map mark ++ Word.all.map word

/-- The kind with the given number. -/
def ofCode (n : Int) : TokenKind :=
  if 0 ≤ n then all.getD n.toNat (.unknown n) else .unknown n

/-- The number of a kind. -/
def code : TokenKind → Int
  | .unknown n => n
  | k => all.idxOf k

/-- A text in single quotes. -/
def quoted (s : Bytes) : Bytes :=
  0x27 :: s ++ [0x27]

/-- The name of a kind in messages. -/
def name : TokenKind → Bytes
  | .endOfInput => utf8 "end of input"
  | .integer => utf8 "integer"
  | .float => utf8 "float"
  | .string => utf8 "string"
  | .identifier => utf8 "identifier"
  | .mark m => quoted m.text
  | .word w => quoted w.text
  | .unknown n => utf8 "Token(" ++ Bytes.ofInt n ++ utf8 ")"

/-- Whether messages show the text of such a token beside its kind. -/
def showsText : TokenKind → Bool
  | .integer | .float | .string | .identifier => true
  | _ => false

end TokenKind

/-- A kind and the span of its text. -/
structure Token where
  kind : TokenKind
  span : Span
  deriving DecidableEq

namespace Token

/-- The text of a token. -/
def text (t : Token) (source : Bytes) : Bytes :=
  t.span.slice source

/-- The kind and the span in writing. -/
def label (t : Token) : Bytes :=
  t.kind.name ++ utf8 "@" ++ t.span.text

/-- A token as a message names it. -/
def describe (t : Token) (source : Bytes) : Bytes :=
  if t.kind.showsText then t.kind.name ++ utf8 " " ++ t.text source else t.kind.name

end Token

end Abacus
