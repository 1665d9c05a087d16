import Abacus.Toml.Item

/-!
# Plain values of a settings file

Numbers, truth values, dates and times, each read from a whole word of the
text.

* An integer is decimal with an optional sign, or hexadecimal, octal or binary
  without one, and fits into 64 bits.
* An underscore may stand between two digits of any number.
* A decimal number does not start with a zero that another digit follows.
* A float has a fraction, an exponent or both, and is not beyond the range of
  binary64.
-/

namespace Abacus.Toml

/-! ## Digits -/

/-- The value of a digit, lower or upper case. -/
def digitValue (c : Char) : Nat :=
  if c.isDigit then c.toNat - 48
  else if c.isLower then c.toNat - 87
  else c.toNat - 55

/-- Whether a character is a digit of a number system with up to 16 digits. -/
def isBaseDigit (base : Nat) (c : Char) : Bool :=
  (c.isDigit || ('a' ≤ c && c ≤ 'f') || ('A' ≤ c && c ≤ 'F')) && digitValue c < base

/-- The digits of a digit sequence without its underscores.  Each underscore must
stand between two digits. -/
def digits? (base : Nat) : List Char → Option (List Char)
  | [] => none
  | [c] => if isBaseDigit base c then some [c] else none
  | c :: '_' :: s =>
    if isBaseDigit base c then (digits? base s).map (c :: ·) else none
  | c :: s =>
    if isBaseDigit base c then (digits? base s).map (c :: ·) else none

/-- The number that digits denote. -/
def digitsValue (base : Nat) (ds : List Char) : Nat :=
  ds.foldl (fun n d => base * n + digitValue d) 0

/-- Decimal digits that do not start with a superfluous zero. -/
def plainDigits? (s : List Char) : Option (List Char) := do
  let ds ← digits? 10 s
  if s.length > 1 ∧ s.head? = some '0' then none else some ds

/-- A word divided behind its sign; the sign is that of a negative number if it
is a minus. -/
def splitSign : List Char → Bool × List Char
  | '-' :: s => (true, s)
  | '+' :: s => (false, s)
  | s => (false, s)

/-! ## Integers -/

/-- An integer, if it fits into 64 bits. -/
def inRange (n : Int) : Option Int :=
  if -0x8000000000000000 ≤ n ∧ n < 0x8000000000000000 then some n else none

/-- The integer that a word denotes. -/
def integer? : List Char → Option Int
  | '0' :: 'x' :: s => do inRange (digitsValue 16 (← digits? 16 s))
  | '0' :: 'o' :: s => do inRange (digitsValue 8 (← digits? 8 s))
  | '0' :: 'b' :: s => do inRange (digitsValue 2 (← digits? 2 s))
  | s => do
    let (negative, s) := splitSign s
    let n : Int := digitsValue 10 (← plainDigits? s)
    inRange (if negative then -n else n)

/-! ## Floats -/

/-- Whether the character belongs to a decimal digit sequence. -/
def isDigitOrUnderscore (c : Char) : Bool :=
  c.isDigit || c = '_'

/-- Whether `m * 10 ^ e` rounds to a finite binary64 number.  Exponents far
outside the range are settled by the number of digits. -/
def isFinite64 (m : Nat) (digits : Nat) (e : Int) : Bool :=
  if m = 0 ∨ e + digits < 300 then true
  else if e > 400 then false
  else m * Nat.pow 10 e.toNat < 0x3fffffffffffff * Nat.pow 2 970 * Nat.pow 10 (-e).toNat

/-- The exponent that ends a float, where there is one. -/
def exponent? : List Char → Option Int
  | [] => some 0
  | c :: s =>
    if c = 'e' ∨ c = 'E' then do
      let (negative, s) := splitSign s
      let n : Int := digitsValue 10 (← digits? 10 s)
      some (if negative then -n else n)
    else none

/-- The fraction of a float and what stands behind it. -/
def fraction? : List Char → Option (List Char × List Char)
  | '.' :: s => do
    let ds ← digits? 10 (s.takeWhile isDigitOrUnderscore)
    some (ds, s.dropWhile isDigitOrUnderscore)
  | s => some ([], s)

/-- Whether a word is a float. -/
def isFloat (word : List Char) : Bool :=
  let s := (splitSign word).2
  if s = ['i', 'n', 'f'] ∨ s = ['n', 'a', 'n'] then true
  else
    let back := s.dropWhile isDigitOrUnderscore
    let parts := do
      let whole ← plainDigits? (s.takeWhile isDigitOrUnderscore)
      let (fraction, s) ← fraction? back
      let e ← exponent? s
      some (whole ++ fraction, e - fraction.length)
    match parts with
    | some (ds, e) => !back.isEmpty && isFinite64 (digitsValue 10 ds) ds.length e
    | none => false

/-! ## Dates and times -/

/-- A number of exactly `count` digits and what stands behind it. -/
def number? (count : Nat) (s : List Char) : Option (Nat × List Char) :=
  let ds := s.take count
  if ds.length = count ∧ ds.all Char.isDigit then some (digitsValue 10 ds, s.drop count)
  else none

/-- What stands behind a given character. -/
def after? (c : Char) : List Char → Option (List Char)
  | d :: s => if d = c then some s else none
  | [] => none

/-- The days of a month. -/
def monthDays (year month : Nat) : Nat :=
  match month with
  | 2 => if year % 4 = 0 ∧ (year % 100 ≠ 0 ∨ year % 400 = 0) then 29 else 28
  | 4 | 6 | 9 | 11 => 30
  | _ => 31

/-- What stands behind a date. -/
def afterDate? (s : List Char) : Option (List Char) := do
  let (year, s) ← number? 4 s
  let (month, s) ← number? 2 (← after? '-' s)
  let (day, s) ← number? 2 (← after? '-' s)
  if 1 ≤ month ∧ month ≤ 12 ∧ 1 ≤ day ∧ day ≤ monthDays year month then some s else none

/-- What stands behind the fraction of a second; the fraction may be missing. -/
def afterFraction : List Char → List Char
  | '.' :: c :: s => if c.isDigit then s.dropWhile Char.isDigit else '.' :: c :: s
  | s => s

/-- What stands behind a time; its seconds may be missing. -/
def afterTime? (s : List Char) : Option (List Char) := do
  let (hour, s) ← number? 2 s
  let (minute, s) ← number? 2 (← after? ':' s)
  if hour ≥ 24 ∨ minute ≥ 60 then none
  else
    match s with
    | ':' :: s =>
      let (second, s) ← number? 2 s
      if second ≥ 60 then none else some (afterFraction s)
    | s => some s

/-- Whether the text is the zone of a time. -/
def isZone : List Char → Bool
  | ['Z'] | ['z'] => true
  | c :: s =>
    (c = '+' || c = '-') &&
      ((do
        let (hour, s) ← number? 2 s
        let (minute, s) ← number? 2 (← after? ':' s)
        return hour ≤ 24 && minute ≤ 60 && s.isEmpty).getD false)
  | [] => false

/-- Whether the text is a time without a zone. -/
def isLocalTime (s : List Char) : Bool :=
  afterTime? s = some []

/-- Whether the text is a time of a day with its zone, if any. -/
def isDayTime (s : List Char) : Bool :=
  match afterTime? s with
  | some rest => rest.isEmpty || isZone rest
  | none => false

/-- Whether a word is a date, a time or both. -/
def isTime (word : List Char) : Bool :=
  isLocalTime word ||
    match afterDate? word with
    | some [] => true
    | some (c :: s) => (c = 'T' || c = 't') && isDayTime s
    | none => false

/-! ## Words -/

/-- The value that a word denotes. -/
def scalar? (word : List Char) : Option Item :=
  if word = ['t', 'r', 'u', 'e'] then some (.boolean true)
  else if word = ['f', 'a', 'l', 's', 'e'] then some (.boolean false)
  else
    match integer? word with
    | some n => some (.integer n)
    | none =>
      if isFloat word then some .float
      else if isTime word then some .time
      else none

end Abacus.Toml
