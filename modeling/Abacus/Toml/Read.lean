import Abacus.Text.Utf8
import Abacus.Toml.Scalar

/-!
# Reading a settings file

The text of a settings file is read statement by statement, each on lines of
its own.  A reader takes the text and gives what it has read and the text
behind it, or nothing where the text has another form.

`statements?` reads a whole text.  Its bytes must be UTF-8, it holds no control
characters but tabs and line ends, and a carriage return stands only before a
line feed.
-/

namespace Abacus.Toml

/-! ## Layout -/

/-- Whether a character is a blank inside a line. -/
def isSpace (c : Char) : Bool :=
  c = ' ' || c = '\t'

/-- The text behind the blanks at its front. -/
def skipSpaces (s : List Char) : List Char :=
  s.dropWhile isSpace

/-- The text behind the blanks, line ends and comments at its front; `inComment`
says whether the text starts inside a comment. -/
def skipLayout (inComment : Bool) : List Char → List Char
  | [] => []
  | c :: s =>
    if c = '\n' then skipLayout false s
    else if inComment then skipLayout true s
    else if isSpace c then skipLayout false s
    else if c = '#' then skipLayout true s
    else c :: s

/-- The text behind the rest of a line, which may hold only blanks and a comment. -/
def endLine? (s : List Char) : Option (List Char) :=
  match skipSpaces s with
  | [] => some []
  | '\n' :: s => some s
  | '#' :: s => some ((s.dropWhile (· ≠ '\n')).drop 1)
  | _ => none

/-! ## Quoted texts -/

/-- The character with the number that `count` hexadecimal digits denote. -/
def hexChar? (count : Nat) (s : List Char) : Option Char :=
  let ds := s.take count
  let n := digitsValue 16 ds
  if ds.length = count ∧ ds.all (isBaseDigit 16) then
    if h : n.isValidChar then some (Char.ofNatAux n h) else none
  else none

/-- The character that an escape denotes, given the text behind the backslash,
and how many characters of that text belong to it. -/
def escape? : List Char → Option (Char × Nat)
  | 'b' :: _ => some ('\x08', 1)
  | 't' :: _ => some ('\t', 1)
  | 'n' :: _ => some ('\n', 1)
  | 'f' :: _ => some ('\x0c', 1)
  | 'r' :: _ => some ('\r', 1)
  | 'e' :: _ => some ('\x1b', 1)
  | '"' :: _ => some ('"', 1)
  | '\\' :: _ => some ('\\', 1)
  | 'x' :: s => (hexChar? 2 s).map (·, 3)
  | 'u' :: s => (hexChar? 4 s).map (·, 5)
  | 'U' :: s => (hexChar? 8 s).map (·, 9)
  | _ => none

/-- A text in double quotes, read from behind the opening quote.  The first
`skip` characters belong to an escape that has been read. -/
def basicText? : Nat → List Char → Option (List Char × List Char)
  | _, [] => none
  | skip + 1, _ :: s => basicText? skip s
  | 0, c :: s =>
    if c = '"' then some ([], s)
    else if c = '\n' then none
    else if c = '\\' then do
      let (d, n) ← escape? s
      let (cs, rest) ← basicText? n s
      some (d :: cs, rest)
    else (basicText? 0 s).map fun (cs, rest) => (c :: cs, rest)

/-- A text in single quotes, read from behind the opening quote. -/
def literalText? (s : List Char) : Option (List Char × List Char) :=
  let cs := s.takeWhile fun c => c ≠ '\'' && c ≠ '\n'
  match s.drop cs.length with
  | '\'' :: rest => some (cs, rest)
  | _ => none

/-- How many characters behind a backslash of a long text belong to its escape.
A backslash at the end of a line stands for nothing. -/
def longEscape? (s : List Char) : Option Nat :=
  match skipSpaces s with
  | '\n' :: _ => some 0
  | _ => (escape? s).map (·.2)

/-- How many quotes a run may have that closes a long text. -/
def maxRun : Nat := 5

/-- The text behind a long text in quotes of the kind `mark`.  A run of three to
`most` quotes closes it, and a longer run is refused.  Right behind an escaped
backslash the run may have one quote more. -/
def afterLongText? (mark : Char) (most : Nat) : Nat → List Char → Option (List Char)
  | _, [] => none
  | skip + 1, _ :: s => afterLongText? mark most skip s
  | 0, c :: s =>
    if c = mark then
      let run := (s.takeWhile (· = mark)).length
      if run < 2 then afterLongText? mark maxRun run s
      else if run < most then some (s.drop run)
      else none
    else if c = '\\' ∧ mark = '"' then do
      let most := if s.head? = some '\\' then maxRun + 1 else maxRun
      afterLongText? mark most (← longEscape? s) s
    else afterLongText? mark maxRun 0 s

/-! ## Keys -/

/-- One part of a key. -/
def part? : List Char → Option (Part × List Char)
  | '"' :: s => basicText? 0 s
  | '\'' :: s => literalText? s
  | s =>
    let p := s.takeWhile isBareChar
    if p.isEmpty then none else some (p, s.drop p.length)

/-- A key of at most `bound` parts, with dots between them. -/
def key? : Nat → List Char → Option (Key × List Char)
  | 0, _ => none
  | bound + 1, s => do
    let (p, s) ← part? (skipSpaces s)
    match skipSpaces s with
    | '.' :: s =>
      let (k, s) ← key? bound s
      some (p :: k, s)
    | s => some ([p], s)

/-! ## Values -/

/-- Whether a character can belong to a number, a truth value, a date or a time. -/
def isWordChar (c : Char) : Bool :=
  c.isAlphanum || c = '_' || c = '+' || c = '-' || c = '.' || c = ':'

/-- A word and the text behind it.  A date and a time may have a blank between
them, which reads as the mark of a time. -/
def word (s : List Char) : List Char × List Char :=
  let first := s.takeWhile isWordChar
  let rest := s.drop first.length
  match rest with
  | ' ' :: c :: _ =>
    if c.isDigit && afterDate? first = some [] then
      let second := (rest.drop 1).takeWhile isWordChar
      (first ++ 'T' :: second, rest.drop (second.length + 1))
    else (first, rest)
  | _ => (first, rest)

/-- A reader of values. -/
abbrev Reader := List Char → Option (Item × List Char)

/-- At most `bound` values of an array, read from behind its opening bracket. -/
def items? (value? : Reader) : Nat → List Char → Option (List Item × List Char)
  | 0, _ => none
  | bound + 1, s =>
    match skipLayout false s with
    | ']' :: s => some ([], s)
    | s => do
      let (v, s) ← value? s
      match skipLayout false s with
      | ',' :: s =>
        let (vs, s) ← items? value? bound s
        some (v :: vs, s)
      | ']' :: s => some ([v], s)
      | _ => none

/-- A key with its value. -/
def assignment? (value? : Reader) (s : List Char) : Option ((Key × Item) × List Char) := do
  let (k, s) ← key? s.length s
  let s ← after? '=' s
  let (v, s) ← value? (skipSpaces s)
  some ((k, v), s)

/-- At most `bound` entries of a table, read from behind its opening brace. -/
def entries? (value? : Reader) : Nat → List Char → Option (List (Key × Item) × List Char)
  | 0, _ => none
  | bound + 1, s =>
    match skipLayout false s with
    | '\x7d' :: s => some ([], s)
    | s => do
      let (e, s) ← assignment? value? s
      match skipLayout false s with
      | ',' :: s =>
        let (es, s) ← entries? value? bound s
        some (e :: es, s)
      | '\x7d' :: s => some ([e], s)
      | _ => none

/-- A value; arrays and tables nest at most `depth` deep. -/
def value? : Nat → Reader
  | 0, _ => none
  | depth + 1, s =>
    match s with
    | '[' :: s => (items? (value? depth) (s.length + 1) s).map fun (vs, s) => (.array vs, s)
    | '\x7b' :: s => (entries? (value? depth) (s.length + 1) s).map fun (es, s) => (.table es, s)
    | '"' :: '"' :: '"' :: s => (afterLongText? '"' maxRun 0 s).map (.text, ·)
    | '\'' :: '\'' :: '\'' :: s => (afterLongText? '\'' maxRun 0 s).map (.text, ·)
    | '"' :: s => (basicText? 0 s).map fun (_, s) => (.text, s)
    | '\'' :: s => (literalText? s).map fun (_, s) => (.text, s)
    | s => do
      let (w, rest) := word s
      let v ← scalar? w
      some (v, rest)

/-! ## Statements -/

/-- A statement that starts a line. -/
def statement? (s : List Char) : Option (Statement × List Char) :=
  match s with
  | '[' :: '[' :: s => do
    let (k, s) ← key? s.length s
    let s ← after? ']' (← after? ']' s)
    some (.listHeader k, s)
  | '[' :: s => do
    let (k, s) ← key? s.length s
    some (.header k, ← after? ']' s)
  | s => (assignment? (value? s.length) s).map fun ((k, v), s) => (.assign k v, s)

/-- At most `bound` statements, each with the rest of its line. -/
def statementsFrom : Nat → List Char → Option (List Statement)
  | 0, _ => none
  | bound + 1, s =>
    match skipLayout false s with
    | [] => some []
    | s => do
      let (t, s) ← statement? s
      let ts ← statementsFrom bound (← endLine? s)
      some (t :: ts)

/-- Whether a character may stand in a settings file. -/
def isAllowed (c : Char) : Bool :=
  c = '\t' || c = '\n' || (0x20 ≤ c.toNat && c.toNat ≠ 0x7f)

/-- The characters of a text with every line end as a line feed; none when a
carriage return stands elsewhere or another control character occurs. -/
def unifyLines? : List Char → Option (List Char)
  | [] => some []
  | '\r' :: '\n' :: s => (unifyLines? s).map ('\n' :: ·)
  | c :: s => if isAllowed c then (unifyLines? s).map (c :: ·) else none

/-- A text without the mark of its encoding. -/
def withoutMark : Bytes → Bytes
  | 0xef :: 0xbb :: 0xbf :: s => s
  | 0xff :: 0xfe :: s => s
  | 0xfe :: 0xff :: s => s
  | s => s

/-- The statements of a text, if it has the form of a settings file. -/
def statements? (text : Bytes) : Option (List Statement) :=
  let text := withoutMark text
  if text.isUtf8 then do
    let s ← unifyLines? text.chars
    statementsFrom (s.length + 1) s
  else none

end Abacus.Toml
