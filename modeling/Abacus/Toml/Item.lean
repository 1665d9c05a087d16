import Abacus.Text.Bytes

/-!
# Settings files as written

The settings of a project are a TOML document.  Read as it is written, it is a
list of statements: headers that open a table, and assignments of a value to a
key.  Only integers and truth values can be settings, so of the other plain
values nothing but their kind is kept.
-/

namespace Abacus.Toml

/-- One part of a key. -/
abbrev Part := List Char

/-- A key: its parts from the outermost to the innermost. -/
abbrev Key := List Part

/-- A value as written. -/
inductive Item where
  | integer (n : Int)
  | boolean (b : Bool)
  | float
  | text
  | time
  | array (items : List Item)
  | table (entries : List (Key × Item))

/-- One statement of a document. -/
inductive Statement where
  /-- The assignments that follow belong to this table. -/
  | header (key : Key)
  /-- The assignments that follow belong to a new table of this list. -/
  | listHeader (key : Key)
  /-- The key gets this value. -/
  | assign (key : Key) (value : Item)

/-- Whether a character may stand in a key without quotes. -/
def isBareChar (c : Char) : Bool :=
  c.isAlphanum || c = '_' || c = '-'

/-! ## Keys in messages -/

/-- One character of a quoted part. -/
def quotedChar (c : Char) : Bytes :=
  match c with
  | '"' => utf8 "\\\""
  | '\\' => utf8 "\\\\"
  | '\x08' => utf8 "\\b"
  | '\t' => utf8 "\\t"
  | '\n' => utf8 "\\n"
  | '\x0c' => utf8 "\\f"
  | '\r' => utf8 "\\r"
  | c =>
    if c.toNat < 0x20 ∨ c.toNat = 0x7f then utf8 "\\u" ++ Bytes.hexLower 4 c.toNat
    else String.utf8EncodeChar c

/-- A part; it is quoted unless it could be written without quotes. -/
def partText (p : Part) : Bytes :=
  if !p.isEmpty && p.all isBareChar then p.flatMap String.utf8EncodeChar
  else utf8 "\"" ++ p.flatMap quotedChar ++ utf8 "\""

/-- A key as messages show it, with dots between its parts. -/
def keyText (k : Key) : Bytes :=
  Bytes.join (utf8 ".") (k.map partText)

end Abacus.Toml
