import Abacus.Proofs.Number.Decimal
import Abacus.Token.Scan

/-!
# Lexemes

The texts of tokens, class by class, said without the scanner: digits, digits with
a point between them, a name, a reserved word, anything between two quotes, and
the marks.

The first byte of a lexeme tells its family (`IsLexeme.family`), the whole text
tells its kind (`IsLexeme.kind_unique`), and no lexeme but a string holds a blank
(`IsLexeme.eq_string_of_isBlank`).
-/

namespace Abacus

/-! ## The classes -/

/-- A byte with which a name starts. -/
def Bytes.isNameStart (b : UInt8) : Bool :=
  Bytes.isLetter b || b = 0x5f

def IsName (s : Bytes) : Prop :=
  ∃ b rest, s = b :: rest ∧ Bytes.isNameStart b = true ∧ rest.all Bytes.isWord = true

/-- Two quotes with no quote between them. -/
def IsQuoted (s : Bytes) : Prop :=
  ∃ inside, 0x22 ∉ inside ∧ s = 0x22 :: (inside ++ [0x22])

/-- The text is one of a token of the kind. -/
def IsLexeme : TokenKind → Bytes → Prop
  | .integer, s => IsNumeral s
  | .float, s => IsDecimal s
  | .string, s => IsQuoted s
  | .identifier, s => IsName s ∧ ∀ w : Word, w.text ≠ s
  | .word w, s => s = w.text
  | .mark m, s => s = m.text
  | .endOfInput, _ => False
  | .unknown _, _ => False

/-! ## Families of bytes -/

section Bytes

variable {b : UInt8}

theorem isNameStart_of_isDigit (h : Bytes.isDigit b = true) : Bytes.isNameStart b = false := by
  have hb := toNat_of_isDigit h
  simp only [Bytes.isNameStart, Bytes.isLetter, Bool.or_eq_false_iff, Bool.and_eq_false_iff,
    decide_eq_false_iff_not, UInt8.le_iff_toNat_le, ← UInt8.toNat_inj, UInt8.toNat_ofNat]
  omega

theorem isWord_of_isNameStart (h : Bytes.isNameStart b = true) : Bytes.isWord b = true := by
  unfold Bytes.isNameStart at h
  unfold Bytes.isWord
  cases hletter : Bytes.isLetter b <;> simp_all

theorem isBlank_iff : Scan.isBlank b = true ↔ b = 0x20 ∨ b = 0x09 ∨ b = 0x0d ∨ b = 0x0a := by
  simp [Scan.isBlank, or_assoc]

theorem isWord_of_isBlank (h : Scan.isBlank b = true) : Bytes.isWord b = false := by
  rcases isBlank_iff.mp h with rfl | rfl | rfl | rfl <;> decide

theorem isDigit_of_isBlank (h : Scan.isBlank b = true) : Bytes.isDigit b = false := by
  rcases isBlank_iff.mp h with rfl | rfl | rfl | rfl <;> decide

end Bytes

/-! ## The first byte -/

/-- What the first byte of a lexeme tells about its kind. -/
inductive Family where
  | number | name | quote | mark
  deriving DecidableEq

def Family.ofByte (b : UInt8) : Family :=
  if Bytes.isDigit b then .number
  else if Bytes.isNameStart b then .name
  else if b = 0x22 then .quote
  else .mark

def TokenKind.family? : TokenKind → Option Family
  | .integer => some .number
  | .float => some .number
  | .string => some .quote
  | .identifier => some .name
  | .word _ => some .name
  | .mark _ => some .mark
  | .endOfInput => none
  | .unknown _ => none

theorem IsName.family {b : UInt8} {s : Bytes} (h : IsName (b :: s)) :
    Family.ofByte b = .name := by
  obtain ⟨c, rest, heq, hc, -⟩ := h
  obtain ⟨rfl, rfl⟩ := List.cons.inj heq
  have hdigit : Bytes.isDigit b ≠ true := by
    intro hdigit
    rw [isNameStart_of_isDigit hdigit] at hc
    contradiction
  rw [Family.ofByte, if_neg hdigit, if_pos hc]

theorem IsName.all_isWord {s : Bytes} (h : IsName s) : s.all Bytes.isWord = true := by
  obtain ⟨b, rest, rfl, hb, hrest⟩ := h
  simp [isWord_of_isNameStart hb, hrest]

theorem Word.isName_text (w : Word) : IsName w.text := by
  cases w <;> exact ⟨_, _, rfl, by decide, by decide⟩

theorem Mark.family_text (m : Mark) :
    ∃ b rest, m.text = b :: rest ∧ Family.ofByte b = .mark := by
  cases m <;> exact ⟨_, _, rfl, by decide⟩

theorem Word.mem_all (w : Word) : w ∈ Word.all := by
  cases w <;> decide

theorem Mark.mem_all (m : Mark) : m ∈ Mark.all := by
  cases m <;> decide

theorem Word.text_inj {w w' : Word} (h : w.text = w'.text) : w = w' := by
  have hall : ∀ w ∈ Word.all, ∀ w' ∈ Word.all, w.text = w'.text → w = w' := by
    decide +kernel
  exact hall w w.mem_all w' w'.mem_all h

theorem Mark.text_inj {m m' : Mark} (h : m.text = m'.text) : m = m' := by
  have hall : ∀ m ∈ Mark.all, ∀ m' ∈ Mark.all, m.text = m'.text → m = m' := by
    decide +kernel
  exact hall m m.mem_all m' m'.mem_all h

theorem not_isDecimal_of_isNumeral {s : Bytes} (h : IsNumeral s) : ¬IsDecimal s := by
  rintro ⟨whole, fraction, -, -, rfl⟩
  have hpoint : Bytes.isDigit 0x2e = true := h.isDigit (by simp)
  contradiction

theorem Mark.isBlank_eq_false {m : Mark} {b : UInt8} (hb : b ∈ m.text) :
    Scan.isBlank b = false := by
  have hall : m.text.all (fun b => !Scan.isBlank b) = true := by
    cases m <;> decide
  simpa using List.all_eq_true.mp hall b hb

namespace IsLexeme

variable {k k' : TokenKind} {b : UInt8} {s : Bytes}

theorem ne_nil (h : IsLexeme k s) : s ≠ [] := by
  cases k with
  | integer => exact h.1
  | float =>
    obtain ⟨whole, fraction, -, -, rfl⟩ := h
    simp
  | string =>
    obtain ⟨inside, -, rfl⟩ := h
    simp
  | identifier =>
    obtain ⟨⟨b, rest, rfl, -⟩, -⟩ := h
    simp
  | word w =>
    obtain ⟨b, rest, heq, -⟩ := w.isName_text
    rw [show s = w.text from h, heq]
    simp
  | mark m =>
    obtain ⟨b, rest, heq, -⟩ := m.family_text
    rw [show s = m.text from h, heq]
    simp
  | endOfInput => exact h.elim
  | unknown code => exact h.elim

/-- The first byte of a lexeme tells the family of its kind. -/
theorem family (h : IsLexeme k (b :: s)) : k.family? = some (Family.ofByte b) := by
  cases k with
  | integer =>
    rw [Family.ofByte, if_pos (IsNumeral.isDigit h List.mem_cons_self)]
    rfl
  | float =>
    obtain ⟨whole, fraction, hwhole, -, heq⟩ := h
    cases whole with
    | nil => exact absurd rfl hwhole.1
    | cons d whole =>
      obtain ⟨rfl, -⟩ := List.cons.inj heq
      rw [Family.ofByte, if_pos (hwhole.isDigit List.mem_cons_self)]
      rfl
  | string =>
    obtain ⟨inside, -, heq⟩ := h
    obtain ⟨rfl, -⟩ := List.cons.inj heq
    decide
  | identifier =>
    rw [h.1.family]
    rfl
  | word w =>
    have hname : IsName (b :: s) := by
      rw [show b :: s = w.text from h]
      exact w.isName_text
    rw [hname.family]
    rfl
  | mark m =>
    obtain ⟨c, rest, heq, hc⟩ := m.family_text
    rw [← show b :: s = m.text from h] at heq
    rw [(List.cons.inj heq).1, hc]
    rfl
  | endOfInput => exact h.elim
  | unknown code => exact h.elim

/-- No lexeme but a string holds a blank. -/
theorem eq_string_of_isBlank (h : IsLexeme k s) (hb : b ∈ s) (hblank : Scan.isBlank b = true) :
    k = .string := by
  have hdigit := isDigit_of_isBlank hblank
  have hword := isWord_of_isBlank hblank
  cases k with
  | integer =>
    rw [IsNumeral.isDigit h hb] at hdigit
    contradiction
  | float =>
    obtain ⟨whole, fraction, hwhole, hfraction, rfl⟩ := h
    rcases List.mem_append.mp hb with hb | hb
    · rw [hwhole.isDigit hb] at hdigit
      contradiction
    · rcases List.mem_cons.mp hb with rfl | hb
      · contradiction
      · rw [hfraction.isDigit hb] at hdigit
        contradiction
  | string => rfl
  | identifier =>
    rw [List.all_eq_true.mp h.1.all_isWord b hb] at hword
    contradiction
  | word w =>
    cases h
    rw [List.all_eq_true.mp w.isName_text.all_isWord b hb] at hword
    contradiction
  | mark m =>
    cases h
    rw [Mark.isBlank_eq_false hb] at hblank
    contradiction
  | endOfInput => exact h.elim
  | unknown code => exact h.elim

/-- The text of a lexeme tells its kind. -/
theorem kind_unique (h : IsLexeme k s) (h' : IsLexeme k' s) : k = k' := by
  have hfamily : k.family? = k'.family? := by
    cases s with
    | nil => exact absurd rfl h.ne_nil
    | cons b s => rw [h.family, h'.family]
  -- Kinds of two families are out; within a family the texts are different.
  cases k <;> cases k' <;> first | (cases hfamily; done) | skip
  case integer.integer => rfl
  case integer.float => exact (not_isDecimal_of_isNumeral h h').elim
  case float.integer => exact (not_isDecimal_of_isNumeral h' h).elim
  case float.float => rfl
  case string.string => rfl
  case identifier.identifier => rfl
  case identifier.word w => exact absurd (show s = w.text from h').symm (h.2 w)
  case word.identifier w => exact absurd (show s = w.text from h).symm (h'.2 w)
  case word.word w w' => rw [Word.text_inj ((show s = w.text from h).symm.trans h')]
  case mark.mark m m' => rw [Mark.text_inj ((show s = m.text from h).symm.trans h')]
  all_goals exact h.elim

end IsLexeme

end Abacus
