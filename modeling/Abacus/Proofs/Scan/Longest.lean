import Abacus.Proofs.Scan.Lexeme
import Abacus.Proofs.Text.Glyphs

/-!
# The piece at the head of a text

What stands at the head of a text is a blank, a comment, a lexeme or none of
these.  `PieceOf` is the rule for what a scanner must take then, and of lexemes it
asks for the longest one (`LongestLexeme`).  The rule leaves no choice
(`PieceOf.unique`), and the scanner follows it (`pieceOf_piece`).

The first byte of a text tells the family of all lexemes at its head
(`family_of_isPrefix`), so that each branch of the scanner is compared with the
lexemes of its own family only.
-/

namespace Abacus

namespace Scan

/-! ## Runs of bytes -/

section Runs

variable {p : UInt8 → Bool} {front back q s : Bytes}

/-- A text splits where its leading run of bytes ends. -/
theorem exists_run (p : UInt8 → Bool) (s : Bytes) :
    ∃ front back, s = front ++ back ∧ front.all p = true ∧ (∀ c ∈ back.head?, p c = false) ∧
      run p s = front.length := by
  refine ⟨s.takeWhile p, s.dropWhile p, List.takeWhile_append_dropWhile.symm, List.all_takeWhile,
    ?_, rfl⟩
  intro c hc
  have hhead := List.head?_dropWhile_not p s
  rw [Option.mem_def.mp hc] at hhead
  simpa using hhead

/-- The end of the leading run is the only place where the bytes change. -/
theorem takeWhile_append_eq (hfront : front.all p = true) (hback : ∀ c ∈ back.head?, p c = false) :
    (front ++ back).takeWhile p = front := by
  rw [List.takeWhile_append_of_pos (List.all_eq_true.mp hfront)]
  cases back with
  | nil => simp
  | cons c back =>
    have hc := hback c rfl
    simp [hc]

theorem run_append_eq (hfront : front.all p = true) (hback : ∀ c ∈ back.head?, p c = false) :
    run p (front ++ back) = front.length := by
  rw [run, takeWhile_append_eq hfront hback]

theorem length_le_run (hq : q.all p = true) (h : q <+: s) : q.length ≤ run p s := by
  obtain ⟨z, rfl⟩ := h
  rw [run, List.takeWhile_append_of_pos (List.all_eq_true.mp hq), List.length_append]
  exact Nat.le_add_right _ _

theorem all_ne_of_not_mem {c : UInt8} (h : c ∉ s) : s.all (· ≠ c) = true := by
  simp only [List.all_eq_true, decide_eq_true_eq]
  rintro d hd rfl
  exact h hd

/-- Two splits of one text at the end of its run are the same. -/
theorem append_inj_of_run {front' back' : Bytes} (h : front ++ back = front' ++ back')
    (hfront : front.all p = true) (hback : ∀ c ∈ back.head?, p c = false)
    (hfront' : front'.all p = true) (hback' : ∀ c ∈ back'.head?, p c = false) :
    front = front' ∧ back = back' := by
  have htaken : front = front' := by
    rw [← takeWhile_append_eq hfront hback, h, takeWhile_append_eq hfront' hback']
  subst htaken
  exact ⟨rfl, List.append_cancel_left h⟩

end Runs

end Scan

/-! ## The longest lexeme -/

/-- The text at the head of `s` is a lexeme of the kind, and no longer prefix of
`s` is a lexeme of any kind. -/
structure LongestLexeme (s : Bytes) (k : TokenKind) (text : Bytes) : Prop where
  isPrefix : text <+: s
  lexeme : IsLexeme k text
  longest : ∀ k' q, q <+: s → IsLexeme k' q → q.length ≤ text.length

/-- The lexemes at the head of a text are of the family of its first byte. -/
theorem family_of_isPrefix {b : UInt8} {rest q : Bytes} {k : TokenKind} (hq : IsLexeme k q)
    (h : q <+: b :: rest) : k.family? = some (Family.ofByte b) := by
  cases q with
  | nil => exact absurd rfl hq.ne_nil
  | cons c q =>
    obtain ⟨z, hz⟩ := h
    obtain ⟨rfl, -⟩ := List.cons.inj hz
    exact hq.family

namespace Scan

variable {b : UInt8} {rest : Bytes}

/-! ### Numbers -/

/-- The lexemes at a digit are numbers. -/
theorem number_kind {front back q : Bytes} {k : TokenKind} (hfront : IsNumeral front)
    (hq : IsLexeme k q) (h : q <+: front ++ back) : k = .integer ∨ k = .float := by
  have hfamily : k.family? = some .number := by
    match front, hfront with
    | b :: front, hfront =>
      rw [family_of_isPrefix hq h, Family.ofByte, if_pos (hfront.isDigit List.mem_cons_self)]
  cases k <;> first | exact .inl rfl | exact .inr rfl | cases hfamily

/-- Digits before a point in a lexeme are all digits that stand there. -/
theorem decimal_isPrefix {front back whole fraction : Bytes}
    (hfront : front.all Bytes.isDigit = true) (hback : ∀ c ∈ back.head?, Bytes.isDigit c = false)
    (hwhole : IsNumeral whole) (h : whole ++ 0x2e :: fraction <+: front ++ back) :
    whole = front ∧ 0x2e :: fraction <+: back := by
  obtain ⟨z, hz⟩ := h
  rw [List.append_assoc] at hz
  obtain ⟨rfl, rfl⟩ := append_inj_of_run hz hwhole.2 (by simp; decide) hfront hback
  exact ⟨rfl, z, rfl⟩

/-- Digits with no point and digit behind them are the longest lexeme. -/
theorem integer_longest {front back : Bytes} (hfront : IsNumeral front)
    (hback : ∀ c ∈ back.head?, Bytes.isDigit c = false)
    (hpoint : ∀ d tail, back = 0x2e :: d :: tail → Bytes.isDigit d = false) :
    LongestLexeme (front ++ back) .integer front := by
  refine ⟨List.prefix_append _ _, hfront, ?_⟩
  intro k q hhead hq
  rcases number_kind hfront hq hhead with rfl | rfl
  · have hlength : q.length ≤ run Bytes.isDigit (front ++ back) := length_le_run hq.2 hhead
    rwa [run_append_eq hfront.2 hback] at hlength
  · obtain ⟨whole, fraction, hwhole, hfraction, rfl⟩ := hq
    obtain ⟨-, z, hz⟩ := decimal_isPrefix hfront.2 hback hwhole hhead
    match fraction, hfraction with
    | d :: fraction, hfraction =>
      have hd := hpoint d (fraction ++ z) hz.symm
      rw [hfraction.isDigit List.mem_cons_self] at hd
      contradiction

/-- Digits, a point and all digits behind it are the longest lexeme. -/
theorem float_longest {front digits after : Bytes} (hfront : IsNumeral front)
    (hdigits : IsNumeral digits) (hafter : ∀ c ∈ after.head?, Bytes.isDigit c = false) :
    LongestLexeme (front ++ 0x2e :: (digits ++ after)) .float (front ++ 0x2e :: digits) := by
  have hback : ∀ c ∈ (0x2e :: (digits ++ after) : Bytes).head?, Bytes.isDigit c = false := by
    simp
    decide
  refine ⟨⟨after, by simp⟩, ⟨front, digits, hfront, hdigits, rfl⟩, ?_⟩
  intro k q hhead hq
  rcases number_kind hfront hq hhead with rfl | rfl
  · have hlength : q.length ≤ run Bytes.isDigit (front ++ 0x2e :: (digits ++ after)) :=
      length_le_run hq.2 hhead
    rw [run_append_eq hfront.2 hback] at hlength
    simp only [List.length_append]
    omega
  · obtain ⟨whole, fraction, hwhole, hfraction, rfl⟩ := hq
    obtain ⟨rfl, hpoint⟩ := decimal_isPrefix hfront.2 hback hwhole hhead
    have hlength : fraction.length ≤ run Bytes.isDigit (digits ++ after) :=
      length_le_run hfraction.2 ((List.cons_prefix_cons.mp hpoint).2)
    rw [run_append_eq hdigits.2 hafter] at hlength
    simp only [List.length_append, List.length_cons]
    omega

theorem number_longest (hb : Bytes.isDigit b = true) :
    ∃ k text, number rest = ⟨.token k, text.length⟩ ∧ LongestLexeme (b :: rest) k text := by
  obtain ⟨front, back, rfl, hfront, hback, hrun⟩ := exists_run Bytes.isDigit rest
  have hnumeral : IsNumeral (b :: front) := ⟨by simp, by simp [hb, hfront]⟩
  by_cases hpoint : ∃ d tail, back = 0x2e :: d :: tail ∧ Bytes.isDigit d = true
  · obtain ⟨d, tail, rfl, hd⟩ := hpoint
    obtain ⟨digits, after, hsplit, hall, hafter, hplaces⟩ := exists_run Bytes.isDigit (d :: tail)
    have hne : digits ≠ [] := by
      rintro rfl
      rw [List.nil_append] at hsplit
      rw [← hsplit] at hafter
      rw [hafter d rfl] at hd
      contradiction
    refine ⟨.float, b :: front ++ 0x2e :: digits, ?_, ?_⟩
    · rw [number, hrun]
      simp only [List.drop_left, hd, if_true, hplaces, List.length_append, List.length_cons]
      congr 1
      omega
    · rw [hsplit]
      exact float_longest hnumeral ⟨hne, hall⟩ hafter
  · refine ⟨.integer, b :: front, ?_, ?_⟩
    · rw [number, hrun]
      simp only [List.drop_left, List.length_cons, Nat.add_comm front.length 1]
      split
      · next d tail =>
        rw [if_neg]
        intro hd
        exact hpoint ⟨d, tail, rfl, hd⟩
      · rfl
    · refine integer_longest hnumeral hback ?_
      intro d tail heq
      cases hd : Bytes.isDigit d with
      | false => rfl
      | true => exact absurd ⟨d, tail, heq, hd⟩ hpoint

/-! ### Words -/

theorem name_kind {k : TokenKind} (h : k.family? = some .name) :
    k = .identifier ∨ ∃ w, k = .word w := by
  cases k <;> first | exact .inl rfl | exact .inr ⟨_, rfl⟩ | cases h

/-- Where no letter of a word follows a name, no lexeme is longer than the name. -/
theorem length_le_of_isName {name back q : Bytes} {k : TokenKind} (hname : IsName name)
    (hback : ∀ c ∈ back.head?, Bytes.isWord c = false) (hhead : q <+: name ++ back)
    (hq : IsLexeme k q) : q.length ≤ name.length := by
  have hfamily : k.family? = some .name := by
    match name, hname with
    | b :: name, hname => rw [family_of_isPrefix hq hhead, hname.family]
  have hword : q.all Bytes.isWord = true := by
    rcases name_kind hfamily with rfl | ⟨w, rfl⟩
    · exact hq.1.all_isWord
    · rw [show q = w.text from hq]
      exact w.isName_text.all_isWord
  have hlength := length_le_run hword hhead
  rwa [run_append_eq hname.all_isWord hback] at hlength

theorem word_longest (hb : Bytes.isNameStart b = true) :
    ∃ k text, word b rest = ⟨.token k, text.length⟩ ∧ LongestLexeme (b :: rest) k text := by
  obtain ⟨front, back, rfl, hfront, hback, -⟩ := exists_run Bytes.isWord rest
  have hletters : (front ++ back).takeWhile Bytes.isWord = front :=
    takeWhile_append_eq hfront hback
  have hname : IsName (b :: front) := ⟨b, front, rfl, hb, hfront⟩
  have hlongest : ∀ k q, q <+: b :: (front ++ back) → IsLexeme k q →
      q.length ≤ (b :: front).length :=
    fun k q hhead hq => length_le_of_isName hname hback hhead hq
  have hhead : b :: front <+: b :: (front ++ back) := ⟨back, by simp⟩
  unfold word
  simp only [hletters]
  cases hword : Word.ofText? (b :: front) with
  | some w =>
    have htext : w.text = b :: front := by
      simpa using List.find?_some hword
    exact ⟨.word w, b :: front, rfl, hhead, htext.symm, hlongest⟩
  | none =>
    have hnone : ∀ w : Word, w.text ≠ b :: front := by
      intro w
      simpa using List.find?_eq_none.mp hword w w.mem_all
    exact ⟨.identifier, b :: front, rfl, hhead, ⟨hname, hnone⟩, hlongest⟩

/-! ### Strings -/

theorem quote_kind {k : TokenKind} (h : k.family? = some .quote) : k = .string := by
  cases k <;> first | rfl | cases h

/-- The lexemes at a quote are strings. -/
theorem isQuoted_of_isPrefix {k : TokenKind} {q : Bytes} (hq : IsLexeme k q)
    (h : q <+: 0x22 :: rest) : k = .string ∧ IsQuoted q := by
  have hkind : k = .string := quote_kind (family_of_isPrefix hq h)
  subst hkind
  exact ⟨rfl, hq⟩

/-- A string ends at the first quote behind its opening one. -/
theorem string_longest {inside after : Bytes} (hinside : 0x22 ∉ inside) :
    string (inside ++ 0x22 :: after) = ⟨.token .string, (0x22 :: (inside ++ [0x22])).length⟩ ∧
      LongestLexeme (0x22 :: (inside ++ 0x22 :: after)) .string (0x22 :: (inside ++ [0x22])) := by
  have hback : ∀ c ∈ (0x22 :: after : Bytes).head?, decide (c ≠ 0x22) = false := by simp
  have hrun : run (· ≠ 0x22) (inside ++ 0x22 :: after) = inside.length :=
    run_append_eq (all_ne_of_not_mem hinside) hback
  constructor
  · simp only [string, hrun]
    rw [if_pos (by simp)]
    simp
  · refine ⟨⟨after, by simp⟩, ⟨inside, hinside, rfl⟩, ?_⟩
    intro k q hhead hq
    obtain ⟨rfl, inside', hinside', rfl⟩ := isQuoted_of_isPrefix hq hhead
    obtain ⟨z, hz⟩ := (List.cons_prefix_cons.mp hhead).2
    rw [List.append_assoc] at hz
    obtain ⟨rfl, -⟩ := append_inj_of_run hz (all_ne_of_not_mem hinside') (by simp)
      (all_ne_of_not_mem hinside) hback
    exact Nat.le_refl _

/-- A quote that is never closed opens no lexeme. -/
theorem string_unterminated (hrest : 0x22 ∉ rest) :
    string rest = ⟨.fault .unterminated, rest.length + 1⟩ ∧
      ∀ k q, q <+: 0x22 :: rest → ¬IsLexeme k q := by
  have hrun : run (· ≠ 0x22) rest = rest.length := by
    have hall := run_append_eq (all_ne_of_not_mem hrest)
      (show ∀ c ∈ ([] : Bytes).head?, decide (c ≠ 0x22) = false by simp)
    rwa [List.append_nil] at hall
  constructor
  · simp only [string, hrun]
    rw [if_neg (Nat.lt_irrefl _)]
  · intro k q hhead hq
    obtain ⟨-, inside, -, rfl⟩ := isQuoted_of_isPrefix hq hhead
    obtain ⟨z, rfl⟩ := (List.cons_prefix_cons.mp hhead).2
    simp at hrest

/-! ### Marks -/

theorem mark_kind {k : TokenKind} (h : k.family? = some .mark) : ∃ m, k = .mark m := by
  cases k <;> first | exact ⟨_, rfl⟩ | cases h

theorem mark?_isPrefix {s : Bytes} {m : Mark} (h : mark? s = some m) : m.text <+: s := by
  unfold mark? at h
  split at h
  · next hwide =>
    cases h
    simpa using List.find?_some hwide
  · simpa using List.find?_some h

/-- A mark at the head of a text is not longer than the one that is found. -/
theorem mark?_longest {s : Bytes} {m : Mark} (h : m.text <+: s) :
    ∃ m', mark? s = some m' ∧ m.text.length ≤ m'.text.length := by
  have hlength : m.text.length = 1 ∨ m.text.length = 2 := by
    cases m <;> decide
  cases hwide : wideMarks.find? fun m => m.text.isPrefixOf s with
  | some m' =>
    have hm' : m'.text.length = 2 := by
      have hmem := List.mem_of_find?_eq_some hwide
      simpa using (List.mem_filter.mp hmem).2
    exact ⟨m', by rw [mark?, hwide], by omega⟩
  | none =>
    have hwideNone := List.find?_eq_none.mp hwide
    have hm : m.text.length = 1 := by
      refine hlength.resolve_right fun htwo => ?_
      exact hwideNone m (List.mem_filter.mpr ⟨m.mem_all, by simpa using htwo⟩)
        (List.isPrefixOf_iff_prefix.mpr h)
    cases hnarrow : narrowMarks.find? fun m => m.text.isPrefixOf s with
    | some m' =>
      have hm' : m'.text.length = 1 := by
        have hmem := List.mem_of_find?_eq_some hnarrow
        simpa using (List.mem_filter.mp hmem).2
      exact ⟨m', by rw [mark?, hwide]; exact hnarrow, by omega⟩
    | none =>
      exact absurd (List.isPrefixOf_iff_prefix.mpr h)
        (List.find?_eq_none.mp hnarrow m (List.mem_filter.mpr ⟨m.mem_all, by simpa using hm⟩))

theorem mark?_longestLexeme {m : Mark} (hb : Family.ofByte b = .mark)
    (h : mark? (b :: rest) = some m) : LongestLexeme (b :: rest) (.mark m) m.text := by
  refine ⟨mark?_isPrefix h, rfl, ?_⟩
  intro k q hhead hq
  obtain ⟨m₁, rfl⟩ := mark_kind (by rw [family_of_isPrefix hq hhead, hb])
  obtain rfl : q = m₁.text := hq
  obtain ⟨m₂, hm₂, hlength⟩ := mark?_longest hhead
  rw [h] at hm₂
  cases hm₂
  exact hlength

theorem not_isLexeme_of_mark?_eq_none (hb : Family.ofByte b = .mark)
    (h : mark? (b :: rest) = none) {k : TokenKind} {q : Bytes} (hhead : q <+: b :: rest) :
    ¬IsLexeme k q := by
  intro hq
  obtain ⟨m, rfl⟩ := mark_kind (by rw [family_of_isPrefix hq hhead, hb])
  obtain rfl : q = m.text := hq
  obtain ⟨m', hm', -⟩ := mark?_longest hhead
  rw [h] at hm'
  cases hm'

end Scan

/-! ## The rule of the scanner -/

def StartsBlank (s : Bytes) : Prop :=
  ∃ b ∈ s.head?, b = 0x20 ∨ b = 0x09 ∨ b = 0x0d ∨ b = 0x0a

def StartsComment (s : Bytes) : Prop :=
  [0x2f, 0x2f] <+: s

/-- No lexeme, blank or comment stands at the head of the text. -/
structure StartsNothing (s : Bytes) : Prop where
  lexeme : ∀ k q, q <+: s → ¬IsLexeme k q
  blank : ¬StartsBlank s
  comment : ¬StartsComment s

/-- What the scanner must take off the head of a text: a blank, a comment up to
its line end, the longest lexeme, or, where nothing starts, the glyph there or an
unclosed string with all that follows. -/
inductive PieceOf (s : Bytes) : Piece → Prop where
  | blank (hblank : StartsBlank s) : PieceOf s ⟨.blank, 1⟩
  | comment {inside rest : Bytes} (heq : s = 0x2f :: 0x2f :: (inside ++ rest))
      (hinside : Bytes.newline ∉ inside) (hrest : ∀ b ∈ rest.head?, b = Bytes.newline) :
      PieceOf s ⟨.comment, inside.length + 2⟩
  | token {k : TokenKind} {text : Bytes} (hblank : ¬StartsBlank s) (hcomment : ¬StartsComment s)
      (htext : LongestLexeme s k text) : PieceOf s ⟨.token k, text.length⟩
  | unexpected {b : UInt8} {rest : Bytes} (heq : s = b :: rest) (hb : b ≠ 0x22)
      (hnothing : StartsNothing s) :
      PieceOf s ⟨.fault (.unexpected (Glyph.head b rest)), (Glyph.head b rest).size⟩
  | unterminated {rest : Bytes} (heq : s = 0x22 :: rest) (hrest : 0x22 ∉ rest)
      (hnothing : StartsNothing s) : PieceOf s ⟨.fault .unterminated, rest.length + 1⟩

section Rule

variable {b : UInt8} {rest s : Bytes}

theorem startsBlank_cons : StartsBlank (b :: rest) ↔ Scan.isBlank b = true := by
  rw [isBlank_iff, StartsBlank]
  simp

theorem startsComment_cons :
    StartsComment (b :: rest) ↔ b = 0x2f ∧ rest.head? = some 0x2f := by
  rw [StartsComment]
  cases rest with
  | nil => simp
  | cons c rest => simp [List.cons_prefix_cons, eq_comm]

theorem LongestLexeme.not_startsNothing {k : TokenKind} {text : Bytes}
    (h : LongestLexeme s k text) : ¬StartsNothing s :=
  fun hnothing => hnothing.lexeme k text h.isPrefix h.lexeme

theorem LongestLexeme.unique {k k' : TokenKind} {text text' : Bytes} (h : LongestLexeme s k text)
    (h' : LongestLexeme s k' text') : k = k' ∧ text = text' := by
  have hlength : text.length = text'.length :=
    Nat.le_antisymm (h'.longest k text h.isPrefix h.lexeme)
      (h.longest k' text' h'.isPrefix h'.lexeme)
  have htext : text = text' := by
    rw [List.prefix_iff_eq_take.mp h.isPrefix, List.prefix_iff_eq_take.mp h'.isPrefix, hlength]
  subst htext
  exact ⟨h.lexeme.kind_unique h'.lexeme, rfl⟩

/-- The comment at the head of a text ends at the first line end. -/
theorem comment_unique {inside inside' rest' : Bytes}
    (heq : 0x2f :: 0x2f :: (inside ++ rest) = (0x2f :: 0x2f :: (inside' ++ rest') : Bytes))
    (hinside : Bytes.newline ∉ inside) (hrest : ∀ b ∈ rest.head?, b = Bytes.newline)
    (hinside' : Bytes.newline ∉ inside') (hrest' : ∀ b ∈ rest'.head?, b = Bytes.newline) :
    inside = inside' := by
  have hends : ∀ {after : Bytes}, (∀ b ∈ after.head?, b = Bytes.newline) →
      ∀ b ∈ after.head?, decide (b ≠ Bytes.newline) = false := by
    intro after hafter b hb
    simpa using hafter b hb
  simp only [List.cons.injEq, true_and] at heq
  exact (Scan.append_inj_of_run heq (Scan.all_ne_of_not_mem hinside) (hends hrest)
    (Scan.all_ne_of_not_mem hinside') (hends hrest')).1

theorem pieceOf_comment (h : rest.head? = some 0x2f) :
    PieceOf (0x2f :: rest) ⟨.comment, 1 + Scan.run (· ≠ Bytes.newline) rest⟩ := by
  cases rest with
  | nil => cases h
  | cons c tail =>
    obtain rfl : c = 0x2f := Option.some.inj h
    obtain ⟨front, back, rfl, hfront, hback, -⟩ :=
      Scan.exists_run (fun b => decide (b ≠ Bytes.newline)) tail
    have hsize : 1 + Scan.run (· ≠ Bytes.newline) (0x2f :: (front ++ back)) = front.length + 2 := by
      have hcons : Scan.run (· ≠ Bytes.newline) (0x2f :: front ++ back) = front.length + 1 :=
        Scan.run_append_eq (by rw [List.all_cons, hfront]; decide) hback
      rw [← List.cons_append, hcons]
      omega
    rw [hsize]
    refine .comment rfl ?_ ?_
    · intro hmem
      simpa using List.all_eq_true.mp hfront _ hmem
    · intro b hb
      simpa using hback b hb

/-- Where no token of a larger family starts, the scanner looks for a mark. -/
theorem pieceOf_markOrFault (hb : Family.ofByte b = .mark) (hblank : ¬StartsBlank (b :: rest))
    (hcomment : ¬StartsComment (b :: rest)) : PieceOf (b :: rest) (Scan.markOrFault b rest) := by
  unfold Scan.markOrFault
  split
  · next m hm => exact .token hblank hcomment (Scan.mark?_longestLexeme hb hm)
  · next hm =>
    have hquote : b ≠ 0x22 := by
      rintro rfl
      contradiction
    exact .unexpected rfl hquote
      ⟨fun _ _ => Scan.not_isLexeme_of_mark?_eq_none hb hm, hblank, hcomment⟩

/-- The scanner follows the rule. -/
theorem pieceOf_piece (b : UInt8) (rest : Bytes) : PieceOf (b :: rest) (Scan.piece b rest) := by
  unfold Scan.piece
  split_ifs with hblank hcomment hdigit hname hquote
  · exact .blank (startsBlank_cons.mpr hblank)
  · obtain ⟨rfl, hnext⟩ := hcomment
    exact pieceOf_comment hnext
  all_goals
    replace hblank : ¬StartsBlank (b :: rest) := mt startsBlank_cons.mp hblank
    replace hcomment : ¬StartsComment (b :: rest) := mt startsComment_cons.mp hcomment
  · obtain ⟨k, text, hpiece, htext⟩ := Scan.number_longest hdigit
    rw [hpiece]
    exact .token hblank hcomment htext
  · obtain ⟨k, text, hpiece, htext⟩ := Scan.word_longest hname
    rw [hpiece]
    exact .token hblank hcomment htext
  · subst hquote
    by_cases hclosed : 0x22 ∈ rest
    · obtain ⟨inside, after, rfl, hinside⟩ := List.eq_append_cons_of_mem hclosed
      obtain ⟨hpiece, htext⟩ := Scan.string_longest hinside
      rw [hpiece]
      exact .token hblank hcomment htext
    · obtain ⟨hpiece, hnone⟩ := Scan.string_unterminated hclosed
      rw [hpiece]
      exact .unterminated rfl hclosed ⟨hnone, hblank, hcomment⟩
  · refine pieceOf_markOrFault ?_ hblank hcomment
    replace hname : ¬Bytes.isNameStart b = true := hname
    rw [Family.ofByte, if_neg hdigit, if_neg hname, if_neg hquote]

/-- The rule leaves no choice. -/
theorem PieceOf.unique {p p' : Piece} (h : PieceOf s p) (h' : PieceOf s p') : p = p' := by
  cases h with
  | blank hblank =>
    cases h' with
    | blank => rfl
    | comment heq =>
      subst heq
      rw [startsBlank_cons] at hblank
      contradiction
    | token hno => exact absurd hblank hno
    | unexpected _ _ hnothing => exact absurd hblank hnothing.blank
    | unterminated _ _ hnothing => exact absurd hblank hnothing.blank
  | comment heq hinside hrest =>
    have hcomment : StartsComment s := by
      rw [heq]
      exact ⟨_, rfl⟩
    cases h' with
    | blank hblank =>
      subst heq
      rw [startsBlank_cons] at hblank
      contradiction
    | comment heq' hinside' hrest' =>
      rw [comment_unique (heq.symm.trans heq') hinside hrest hinside' hrest']
    | token _ hno => exact absurd hcomment hno
    | unexpected _ _ hnothing => exact absurd hcomment hnothing.comment
    | unterminated _ _ hnothing => exact absurd hcomment hnothing.comment
  | token hblank hcomment htext =>
    cases h' with
    | blank hyes => exact absurd hyes hblank
    | comment heq =>
      subst heq
      exact absurd ⟨_, rfl⟩ hcomment
    | token _ _ htext' =>
      obtain ⟨rfl, rfl⟩ := htext.unique htext'
      rfl
    | unexpected _ _ hnothing => exact absurd hnothing htext.not_startsNothing
    | unterminated _ _ hnothing => exact absurd hnothing htext.not_startsNothing
  | unexpected heq hb hnothing =>
    cases h' with
    | blank hblank => exact absurd hblank hnothing.blank
    | comment heq' =>
      subst heq'
      exact absurd ⟨_, rfl⟩ hnothing.comment
    | token _ _ htext => exact absurd hnothing htext.not_startsNothing
    | unexpected heq' =>
      obtain ⟨rfl, rfl⟩ := List.cons.inj (heq.symm.trans heq')
      rfl
    | unterminated heq' => exact absurd (List.cons.inj (heq.symm.trans heq')).1 hb
  | unterminated heq hrest hnothing =>
    cases h' with
    | blank hblank => exact absurd hblank hnothing.blank
    | comment heq' =>
      subst heq'
      exact absurd ⟨_, rfl⟩ hnothing.comment
    | token _ _ htext => exact absurd hnothing htext.not_startsNothing
    | unexpected heq' hb => exact absurd (List.cons.inj (heq.symm.trans heq')).1.symm hb
    | unterminated heq' =>
      obtain ⟨-, rfl⟩ := List.cons.inj (heq.symm.trans heq')
      rfl

end Rule

end Abacus
