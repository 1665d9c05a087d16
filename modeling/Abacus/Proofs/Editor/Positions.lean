import Abacus.Editor.Position
import Abacus.Proofs.Source.Lines
import Abacus.Proofs.Text.Stops

/-!
# Positions and offsets

An editor names an offset by its line and the UTF-16 units before it in the line.
`Bytes.IsBoundary` holds of the offsets at which reading a line stops, and these are
the offsets that have names of their own: `offsetAt` leads from the position of such an
offset back to it (`offsetAt_positionAt`), and later offsets have later positions
(`positionAt_lt`).  Every position denotes such an offset, the first on its line that is
not before it (`Bytes.Denotes`).

A text is cut around the line in question (`Bytes.LineOf`), and the rest is about the
glyphs of this one line: how many bytes stand before a number of units
(`exists_unitsLength`, `unitsLength_totalUnits`, `unitsLength_mono`).
-/

namespace Abacus

/-- Positions in the order of the text: by lines, and in a line by characters. -/
instance : LT Position where
  lt p q := p.line < q.line ∨ p.line = q.line ∧ p.character < q.character

instance : LE Position where
  le p q := p.line < q.line ∨ p.line = q.line ∧ p.character ≤ q.character

namespace Position

variable {p q : Position}

theorem le_of_lt (h : p < q) : p ≤ q := by
  rcases h with hline | ⟨hline, hcharacter⟩
  · exact .inl hline
  · exact .inr ⟨hline, Nat.le_of_lt hcharacter⟩

theorem le_of_not_lt (h : ¬p < q) : q ≤ p := by
  change ¬(p.line < q.line ∨ p.line = q.line ∧ p.character < q.character) at h
  show q.line < p.line ∨ q.line = p.line ∧ q.character ≤ p.character
  omega

end Position

namespace Bytes

open Glyph

/-! ## Boundaries -/

/-- The line around an offset, without its line end. -/
def lineAround (text : Bytes) (o : Nat) : Bytes :=
  (text.drop (o - tailLength (text.take o))).takeWhile (· ≠ newline)

/-- The offset lies in the text, and reading its line stops there. -/
def IsBoundary (text : Bytes) (o : Nat) : Prop :=
  o ≤ text.length ∧ (text.lineAround o).IsStop (tailLength (text.take o))

instance (text : Bytes) (o : Nat) : Decidable (text.IsBoundary o) :=
  inferInstanceAs (Decidable (_ ∧ _))

/-- What a position stands for: the boundary with the least position on its line that is
not before it, the end of the line if all are before it, and the end of the text if there
is no such line. -/
inductive Denotes (text : Bytes) (p : Position) (o : Nat) : Prop where
  | within (hboundary : text.IsBoundary o) (hline : (text.positionAt o).line = p.line)
      (hcharacter : p.character ≤ (text.positionAt o).character)
      (hleast : ∀ o' : Nat, text.IsBoundary o' → (text.positionAt o').line = p.line →
        p.character ≤ (text.positionAt o').character → text.positionAt o ≤ text.positionAt o')
  | lineEnd (hline : (text.positionAt o).line = p.line)
      (hbefore : ∀ o' : Nat, text.IsBoundary o' → (text.positionAt o').line = p.line →
        (text.positionAt o').character < p.character)
      (hend : o = text.length ∨ text[o]? = some newline)
  | textEnd (hnone : text.count newline < p.line) (hend : o = text.length)

/-- How positions and offsets of a text correspond. -/
structure Charted (text : Bytes) : Prop where
  /-- A boundary is found again from its position. -/
  inverse : ∀ o : Nat, text.IsBoundary o → text.offsetAt (text.positionAt o) = o
  increasing : ∀ o o' : Nat, text.IsBoundary o → text.IsBoundary o' → o < o' →
    text.positionAt o < text.positionAt o'
  boundary : ∀ p, text.IsBoundary (text.offsetAt p)
  monotone : ∀ p q : Position, p ≤ q → text.offsetAt p ≤ text.offsetAt q
  denotes : ∀ p, text.Denotes p (text.offsetAt p)
  /-- The numbers of a position are not larger than the text. -/
  bounded : ∀ o : Int, (text.positionAt o).line ≤ text.length ∧
    (text.positionAt o).character ≤ text.length

/-! ## The glyphs of one line -/

section Units

variable {gs front back : List Glyph}

theorem units16_eq (s : Bytes) : units16 s = totalUnits s.glyphs := by
  unfold units16
  induction s.glyphs with
  | nil => rfl
  | cons g gs ih => rw [List.foldr_cons, ih, totalUnits_cons]

/-- As many units as some glyphs count for lead behind these glyphs. -/
theorem unitsLength_totalUnits (front back : List Glyph) :
    unitsLength (totalUnits front) (front ++ back) = totalSize front := by
  induction front with
  | nil => cases back <;> rfl
  | cons g front ih =>
    have hpos := g.units16_pos
    obtain ⟨k, hk⟩ : ∃ k, g.units16 = k + 1 := ⟨g.units16 - 1, by omega⟩
    have hrest : k + totalUnits front + 1 - g.units16 = totalUnits front := by omega
    rw [totalUnits_cons, totalSize_cons, List.cons_append, hk, Nat.add_right_comm, unitsLength,
      hrest, ih]

theorem unitsLength_mono {u v : Nat} (h : u ≤ v) (gs : List Glyph) :
    unitsLength u gs ≤ unitsLength v gs := by
  induction gs generalizing u v with
  | nil => exact Nat.le_refl _
  | cons g gs ih =>
    cases u with
    | zero => exact Nat.zero_le _
    | succ u =>
      obtain ⟨w, rfl⟩ : ∃ w, v = w + 1 := ⟨v - 1, by omega⟩
      have hrest := ih (by omega : u + 1 - g.units16 ≤ w + 1 - g.units16)
      rw [unitsLength, unitsLength]
      omega

/-- A number of units leads behind the first glyphs that reach it, or behind all. -/
theorem exists_unitsLength (u : Nat) (gs : List Glyph) :
    ∃ front back, gs = front ++ back ∧ unitsLength u gs = totalSize front ∧
      (u ≤ totalUnits front ∨ back = []) := by
  induction gs generalizing u with
  | nil => exact ⟨[], [], rfl, rfl, .inr rfl⟩
  | cons g gs ih =>
    cases u with
    | zero => exact ⟨[], g :: gs, rfl, rfl, .inl (Nat.zero_le _)⟩
    | succ u =>
      obtain ⟨front, back, hsplit, hlength, hreach⟩ := ih (u + 1 - g.units16)
      refine ⟨g :: front, back, by rw [hsplit, List.cons_append], ?_, hreach.imp_left ?_⟩
      · rw [unitsLength, hlength, totalSize_cons]
      · intro hle
        rw [totalUnits_cons]
        omega

end Units

/-! ## Lines by number -/

section LineStart

variable {text before line front back after : Bytes}

theorem lineStart?_append (hopens : ∀ b ∈ before.getLast?, b = newline) (rest : Bytes) :
    lineStart? (before.count newline) (before ++ rest) = some before.length := by
  induction before with
  | nil => rw [List.count_nil, lineStart?, List.length_nil]
  | cons b before ih =>
    have hrest : ∀ c ∈ before.getLast?, c = newline := by
      cases before with
      | nil => simp
      | cons c before => simpa using hopens
    by_cases hb : b = newline
    · subst hb
      rw [List.count_cons_self, List.cons_append, lineStart?, if_pos rfl, ih hrest]
      rfl
    · -- The line end before the line is still to come.
      have hmem : newline ∈ before := by
        cases hlast : before.getLast? with
        | none =>
          rw [List.getLast?_eq_none_iff.mp hlast] at hopens
          exact absurd (hopens b rfl) hb
        | some c =>
          rw [← hrest c hlast]
          exact List.mem_of_getLast? hlast
      obtain ⟨k, hk⟩ : ∃ k, before.count newline = k + 1 :=
        ⟨before.count newline - 1, by have := List.count_pos_iff.mpr hmem; omega⟩
      have hih := ih hrest
      rw [hk] at hih
      rw [List.count_cons_of_ne hb, hk, List.cons_append, lineStart?, if_neg hb, hih]
      rfl

theorem lineStart?_eq_none {n : Nat} (h : text.count newline < n) :
    text.lineStart? n = none := by
  induction text generalizing n with
  | nil =>
    obtain ⟨k, rfl⟩ : ∃ k, n = k + 1 := ⟨n - 1, by omega⟩
    rfl
  | cons b text ih =>
    obtain ⟨k, rfl⟩ : ∃ k, n = k + 1 := ⟨n - 1, by omega⟩
    have hrest : text.count newline < if b = newline then k else k + 1 := by
      by_cases hb : b = newline
      · subst hb
        rw [List.count_cons_self] at h
        rw [if_pos rfl]
        omega
      · rw [List.count_cons_of_ne hb] at h
        rwa [if_neg hb]
    rw [lineStart?, ih hrest]
    rfl

end LineStart

namespace LineOf

variable {text before line front back after before' line' after' : Bytes}

/-- A line is found by its number. -/
theorem lineStart?_eq (h : LineOf text before line after) :
    text.lineStart? (before.count newline) = some before.length := by
  rw [h.split]
  exact lineStart?_append h.opens _

/-- A number belongs to one line. -/
theorem unique (h : LineOf text before line after) (h' : LineOf text before' line' after')
    (hcount : before.count newline = before'.count newline) : before = before' ∧ line = line' := by
  have hstart := h.lineStart?_eq
  rw [hcount, h'.lineStart?_eq] at hstart
  have hlength : before.length = before'.length := (Option.some.inj hstart).symm
  obtain ⟨hbefore, hrest⟩ := List.append_inj (h.split.symm.trans h'.split) hlength
  have hline := congrArg (List.takeWhile (· ≠ newline)) hrest
  rw [takeWhile_line h.inside h.closes, takeWhile_line h'.inside h'.closes] at hline
  exact ⟨hbefore, hline⟩

theorem lineAround_eq (h : LineOf text before (front ++ back) after) :
    text.lineAround (before.length + front.length) = front ++ back := by
  have hdrop : text.drop before.length = front ++ back ++ after := by
    rw [h.split, List.drop_left]
  rw [lineAround, h.tailLength_take, Nat.add_sub_cancel, hdrop, takeWhile_line h.inside h.closes]

/-- An offset in a line is a boundary just if the parts of the line before and behind it
are read as alone. -/
theorem isBoundary_iff (h : LineOf text before (front ++ back) after) :
    text.IsBoundary (before.length + front.length) ↔
      glyphs (front ++ back) = front.glyphs ++ back.glyphs := by
  have hlength := h.length_eq
  rw [List.length_append] at hlength
  rw [IsBoundary, h.lineAround_eq, h.tailLength_take, isStop_length_iff]
  exact and_iff_right (by omega)

theorem positionAt_eq (h : LineOf text before (front ++ back) after) :
    text.positionAt (before.length + front.length : Nat) =
      ⟨before.count newline, units16 front⟩ := by
  rw [positionAt, h.clamp_eq, h.count_take, h.take_eq, afterLast_line h.opens h.inside_front]

theorem offsetAt_eq (h : LineOf text before line after) (character : Nat) :
    text.offsetAt ⟨before.count newline, character⟩ =
      before.length + unitsLength character line.glyphs := by
  have hdrop : text.drop before.length = line ++ after := by
    rw [h.split, List.drop_left]
  rw [offsetAt, h.lineStart?_eq]
  simp only
  rw [hdrop, takeWhile_line h.inside h.closes]

/-- A position on a line denotes an offset between two glyphs of it, behind as many units
as it asks for or at the end of the line. -/
theorem exists_offsetAt (h : LineOf text before line after) (character : Nat) :
    ∃ front back, line = front ++ back ∧ glyphs (front ++ back) = front.glyphs ++ back.glyphs ∧
      text.offsetAt ⟨before.count newline, character⟩ = before.length + front.length ∧
      (character ≤ units16 front ∨ back = []) := by
  obtain ⟨gs, hs, hsplit, hlength, hreach⟩ := exists_unitsLength character line.glyphs
  obtain ⟨htake, hdrop⟩ := glyphs_take_drop hsplit
  have htotal := totalSize_glyphs line
  rw [hsplit, totalSize_append] at htotal
  refine ⟨line.take (totalSize gs), line.drop (totalSize gs), (List.take_append_drop _ _).symm,
    ?_, ?_, ?_⟩
  · rw [List.take_append_drop, htake, hdrop, hsplit]
  · rw [h.offsetAt_eq, hlength, List.length_take, Nat.min_eq_left (by omega)]
  · rw [units16_eq, htake]
    refine hreach.imp_right ?_
    rintro rfl
    rw [totalSize_nil] at htotal
    rw [List.drop_eq_nil_iff]
    omega

end LineOf

/-! ## Whole texts -/

section Texts

variable {text : Bytes} {o o' : Nat} {p q : Position}

theorem offsetAt_of_count_lt (h : text.count newline < p.line) : text.offsetAt p = text.length := by
  rw [offsetAt, lineStart?_eq_none h]

theorem isBoundary_length (text : Bytes) : text.IsBoundary text.length := by
  obtain ⟨before, front, back, after, hline, ho⟩ := exists_lineOf (Nat.le_refl text.length)
  have hlength := hline.length_eq
  rw [List.length_append] at hlength
  obtain rfl : back = [] := List.eq_nil_of_length_eq_zero (by omega)
  rw [ho, hline.isBoundary_iff, List.append_nil]
  exact (List.append_nil _).symm

/-- A boundary is found again from its position. -/
theorem offsetAt_positionAt (h : text.IsBoundary o) : text.offsetAt (text.positionAt o) = o := by
  obtain ⟨before, front, back, after, hline, rfl⟩ := exists_lineOf h.1
  have hglyphs := hline.isBoundary_iff.mp h
  rw [hline.positionAt_eq, hline.offsetAt_eq, hglyphs, units16_eq, unitsLength_totalUnits,
    totalSize_glyphs]

theorem isBoundary_offsetAt (text : Bytes) (p : Position) : text.IsBoundary (text.offsetAt p) := by
  obtain ⟨number, character⟩ := p
  by_cases hexists : number ≤ text.count newline
  · obtain ⟨before, line, after, hline, rfl⟩ := exists_lineOf_count hexists
    obtain ⟨front, back, rfl, hglyphs, hoffset, -⟩ := hline.exists_offsetAt character
    rw [hoffset, hline.isBoundary_iff]
    exact hglyphs
  · rw [offsetAt_of_count_lt (Nat.lt_of_not_le hexists)]
    exact isBoundary_length text

/-- The offset of a position on a line stands on this line. -/
theorem line_positionAt_offsetAt (h : p.line ≤ text.count newline) :
    (text.positionAt (text.offsetAt p)).line = p.line := by
  obtain ⟨number, character⟩ := p
  obtain ⟨before, line, after, hline, rfl⟩ := exists_lineOf_count h
  obtain ⟨front, back, rfl, -, hoffset, -⟩ := hline.exists_offsetAt character
  rw [hoffset, hline.positionAt_eq]

theorem line_positionAt_mono (text : Bytes) (h : o ≤ o') :
    (text.positionAt o).line ≤ (text.positionAt o').line := by
  have hclamp : text.clamp o ≤ text.clamp o' := by
    unfold clamp
    split <;> split <;> omega
  exact (List.take_sublist_take_left hclamp).count_le newline

theorem offsetAt_mono (text : Bytes) (h : p ≤ q) : text.offsetAt p ≤ text.offsetAt q := by
  by_cases hexists : q.line ≤ text.count newline
  · rcases h with hbefore | ⟨hsame, hcharacter⟩
    · -- Offsets that stand the other way round would have their lines in this order.
      by_contra hlt
      have hlines := line_positionAt_mono text (Nat.le_of_not_le hlt)
      rw [line_positionAt_offsetAt hexists, line_positionAt_offsetAt (by omega)] at hlines
      omega
    · obtain ⟨number, character⟩ := p
      obtain ⟨number', character'⟩ := q
      obtain rfl : number = number' := hsame
      obtain ⟨before, line, after, hline, rfl⟩ := exists_lineOf_count hexists
      rw [hline.offsetAt_eq, hline.offsetAt_eq]
      exact Nat.add_le_add_left (unitsLength_mono hcharacter line.glyphs) _
  · rw [offsetAt_of_count_lt (Nat.lt_of_not_le hexists)]
    exact (isBoundary_offsetAt text p).1

/-- Later boundaries have later positions, because earlier positions lead to earlier
offsets. -/
theorem positionAt_lt (h : text.IsBoundary o) (h' : text.IsBoundary o') (hlt : o < o') :
    text.positionAt o < text.positionAt o' := by
  by_contra hnot
  have hle : text.positionAt o' ≤ text.positionAt o := Position.le_of_not_lt hnot
  have hoffsets := offsetAt_mono text hle
  rw [offsetAt_positionAt h, offsetAt_positionAt h'] at hoffsets
  omega

theorem positionAt_le (h : text.IsBoundary o) (h' : text.IsBoundary o') (hle : o ≤ o') :
    text.positionAt o ≤ text.positionAt o' := by
  rcases Nat.lt_or_eq_of_le hle with hlt | rfl
  · exact Position.le_of_lt (positionAt_lt h h' hlt)
  · exact .inr ⟨rfl, Nat.le_refl _⟩

/-- On the line of a position, no boundary that is not before the position comes before
its offset. -/
theorem offsetAt_le_of_le (h : text.IsBoundary o) (hline : (text.positionAt o).line = p.line)
    (hcharacter : p.character ≤ (text.positionAt o).character) : text.offsetAt p ≤ o := by
  have hle : p ≤ text.positionAt o := .inr ⟨hline.symm, hcharacter⟩
  have hoffsets := offsetAt_mono text hle
  rwa [offsetAt_positionAt h] at hoffsets

theorem denotes_offsetAt (text : Bytes) (p : Position) : text.Denotes p (text.offsetAt p) := by
  by_cases hexists : p.line ≤ text.count newline
  · obtain ⟨number, character⟩ := p
    obtain ⟨before, line, after, hline, rfl⟩ := exists_lineOf_count hexists
    obtain ⟨front, back, rfl, hglyphs, hoffset, hreach⟩ := hline.exists_offsetAt character
    have hposition := hline.positionAt_eq
    have hboundary := hline.isBoundary_iff.mpr hglyphs
    by_cases hcharacter : character ≤ units16 front
    · rw [hoffset]
      refine .within hboundary (by rw [hposition]) (by rwa [hposition]) ?_
      intro o' ho' hline' hcharacter'
      have hle := offsetAt_le_of_le ho' hline' hcharacter'
      rw [hoffset] at hle
      exact positionAt_le hboundary ho' hle
    · obtain rfl : back = [] := hreach.resolve_left hcharacter
      rw [hoffset]
      refine .lineEnd (by rw [hposition]) ?_ ?_
      · intro o' ho' hline'
        by_contra hnot
        have hle := offsetAt_le_of_le ho' hline' (Nat.le_of_not_lt hnot)
        rw [hoffset] at hle
        -- The offset lies on the same line, so not behind its end.
        obtain ⟨before', front', back', after', hcut, rfl⟩ := exists_lineOf ho'.1
        rw [hcut.positionAt_eq] at hline' hnot
        obtain ⟨rfl, hsame⟩ := hline.unique hcut hline'.symm
        have hlengths := congrArg List.length hsame
        rw [List.length_append, List.length_append, List.length_nil] at hlengths
        obtain rfl : back' = [] := List.eq_nil_of_length_eq_zero (by omega)
        rw [List.append_nil, List.append_nil] at hsame
        rw [← hsame] at hnot
        exact hcharacter (Nat.le_of_not_lt hnot)
      · rw [hline.split, List.append_nil]
        cases after with
        | nil => exact .inl (by simp)
        | cons b after =>
          obtain rfl : b = newline := hline.closes b rfl
          exact .inr (by simp [← List.append_assoc])
  · exact .textEnd (Nat.lt_of_not_le hexists) (offsetAt_of_count_lt (Nat.lt_of_not_le hexists))

theorem positionAt_bounded (text : Bytes) (offset : Int) :
    (text.positionAt offset).line ≤ text.length ∧
      (text.positionAt offset).character ≤ text.length := by
  have htake : (text.take (text.clamp offset)).length ≤ text.length := by
    rw [List.length_take]
    omega
  have htail : (afterLast newline (text.take (text.clamp offset))).length ≤
      (text.take (text.clamp offset)).length := by
    rw [afterLast, List.length_reverse]
    exact (List.takeWhile_sublist _).length_le.trans (Nat.le_of_eq List.length_reverse)
  refine ⟨List.count_le_length.trans htake, ?_⟩
  show units16 (afterLast newline (text.take (text.clamp offset))) ≤ text.length
  have hunits := totalUnits_le_totalSize
    (glyphs (afterLast newline (text.take (text.clamp offset))))
  rw [totalSize_glyphs] at hunits
  rw [units16_eq]
  omega

/-- Positions and offsets of a text correspond. -/
theorem charted (text : Bytes) : text.Charted where
  inverse _ h := offsetAt_positionAt h
  increasing _ _ h h' hlt := positionAt_lt h h' hlt
  boundary p := isBoundary_offsetAt text p
  monotone _ _ h := offsetAt_mono text h
  denotes p := denotes_offsetAt text p
  bounded offset := positionAt_bounded text offset

end Texts

end Bytes

end Abacus
