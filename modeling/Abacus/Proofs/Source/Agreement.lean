import Abacus.Proofs.Editor.Positions

/-!
# One offset, three computations

An offset is counted in three ways: as a place for reports (`Bytes.place`), as the ends of
the line that is quoted (`Bytes.lineBounds`), and as a position for an editor
(`Bytes.positionAt`).  `Bytes.Located` says how the three fit together at one offset.

They do so at every offset of every text.  All three look at the nearest offset inside the
text only (`clamp_clamp`), and there the text is cut around the line of the offset
(`LineOf.located`).  Places of later offsets are later (`place_lt`): the line ends before an
offset can only become more, and on one line the column is the distance from its start.
-/

namespace Abacus

/-- Places in the order of the text: by lines, and in a line by columns. -/
instance : LT Place where
  lt p q := p.line < q.line ∨ p.line = q.line ∧ p.column < q.column

namespace Bytes

open Glyph

/-- How the place of an offset, the ends of its line and its position fit together. -/
structure Located (text : Bytes) (o : Nat) (place : Place) (bounds : Nat × Nat)
    (position : Position) : Prop where
  /-- The column counts from the start of the line. -/
  start : (bounds.1 : Int) = o - place.column + 1
  /-- No line end stands between the start of the line and the offset. -/
  before : newline ∉ text.slice bounds.1 o
  opens : bounds.1 = 0 ∨ 0 < bounds.1 ∧ text[bounds.1 - 1]? = some newline
  line : place.line = position.line + 1
  count : place.line = 1 + (text.take o).count newline
  ordered : bounds.1 ≤ bounds.2
  within : bounds.2 ≤ text.length
  /-- No line end stands in the line. -/
  inside : newline ∉ text.slice bounds.1 bounds.2
  character_le : position.character + 1 ≤ place.column
  character_eq : (∀ b ∈ text.slice bounds.1 o, b.toNat < 0x80) →
    position.character + 1 = place.column
  /-- An editor has 32 bits for each number of a position, and these are enough where the
  length of the text needs no more. -/
  fits : text.length < 2 ^ 32 → position.line < 2 ^ 32 ∧ position.character < 2 ^ 32

/-- How the offsets of a text are numbered by lines and columns. -/
structure Numbered (text : Bytes) : Prop where
  /-- An offset outside the text counts as the nearest end. -/
  nearest : ∀ offset : Int, (text.clamp offset : Int) = max 0 (min offset text.length)
  located : ∀ offset : Int, text.Located (text.clamp offset) (text.place offset)
    (text.lineBounds offset) (text.positionAt offset)
  increasing : ∀ o o' : Nat, o < o' → o' ≤ text.length → text.place o < text.place o'
  /-- Different offsets have different places. -/
  distinct : ∀ o o' : Nat, o ≤ text.length → o' ≤ text.length → text.place o = text.place o' →
    o = o'

/-! ## Offsets outside a text -/

section Clamp

variable (text : Bytes) (offset : Int)

theorem clamp_le : text.clamp offset ≤ text.length := by
  unfold clamp
  split <;> omega

theorem clamp_eq_max_min : (text.clamp offset : Int) = max 0 (min offset text.length) := by
  unfold clamp
  split <;> omega

theorem clamp_clamp : text.clamp (text.clamp offset : Int) = text.clamp offset := by
  have hle := clamp_le text offset
  rw [clamp, Int.toNat_natCast, if_pos hle]

theorem place_clamp : text.place (text.clamp offset) = text.place offset := by
  rw [place, clamp_clamp, ← place]

theorem lineBounds_clamp : text.lineBounds (text.clamp offset) = text.lineBounds offset := by
  rw [lineBounds, clamp_clamp, ← lineBounds]

theorem positionAt_clamp : text.positionAt (text.clamp offset) = text.positionAt offset := by
  rw [positionAt, clamp_clamp, ← positionAt]

end Clamp

/-! ## UTF-16 units and bytes -/

theorem units16_le_length (s : Bytes) : units16 s ≤ s.length := by
  rw [units16_eq, ← totalSize_glyphs s]
  exact totalUnits_le_totalSize s.glyphs

/-- ASCII characters count one unit for their one byte. -/
theorem units16_ascii {s : Bytes} (h : ∀ b ∈ s, b.toNat < 0x80) : units16 s = s.length := by
  induction s with
  | nil => rfl
  | cons b s ih =>
    have hsize : (head b s).size = 1 := size_head_ascii (h b List.mem_cons_self) s
    have hunits : (head b s).units16 = 1 := by
      have hpos := (head b s).units16_pos
      have hle := (head b s).units16_le_size
      omega
    have hrest := ih fun c hc => h c (List.mem_cons_of_mem b hc)
    rw [units16_eq] at hrest
    rw [units16_eq, glyphs_cons, hsize, totalUnits_cons, hunits, Nat.sub_self, List.drop_zero,
      hrest, List.length_cons, Nat.add_comm]

/-! ## The line of an offset -/

namespace LineOf

variable {text before front back after : Bytes}

/-- A line starts at the start of the text or behind a line end. -/
theorem opens_cases {line : Bytes} (h : LineOf text before line after) :
    before.length = 0 ∨ 0 < before.length ∧ text[before.length - 1]? = some newline := by
  cases hlast : before.getLast? with
  | none => exact .inl (List.length_eq_zero_iff.mpr (List.getLast?_eq_none_iff.mp hlast))
  | some b =>
    obtain rfl : b = newline := h.opens b hlast
    obtain ⟨rest, rfl⟩ := List.getLast?_eq_some_iff.mp hlast
    refine .inr ⟨by simp, ?_⟩
    rw [h.split, List.length_append, List.length_singleton, Nat.add_sub_cancel, List.append_assoc,
      List.getElem?_append_right (Nat.le_refl _), Nat.sub_self]
    rfl

/-- The three computations at an offset of a line. -/
theorem located (h : LineOf text before (front ++ back) after) :
    text.Located (before.length + front.length) (text.place (before.length + front.length : Nat))
      (text.lineBounds (before.length + front.length : Nat))
      (text.positionAt (before.length + front.length : Nat)) := by
  have hbounded := positionAt_bounded text (before.length + front.length : Nat)
  obtain ⟨line, ending, hwhole, -, hbounds⟩ := h.lineBounds_eq
  have hline : LineOf text before (line ++ ending) after := hwhole ▸ h
  have hlength := hline.length_eq
  rw [List.length_append] at hlength
  rw [h.positionAt_eq] at hbounded
  rw [hbounds, h.place_eq, h.positionAt_eq]
  refine
    { start := ?_
      before := ?_
      opens := h.opens_cases
      line := rfl
      count := ?_
      ordered := Nat.le_add_right _ _
      within := ?_
      inside := ?_
      character_le := Nat.succ_le_succ (units16_le_length front)
      character_eq := ?_
      fits := ?_ }
  · push_cast
    omega
  · rw [h.slice_eq]
    exact h.inside_front
  · rw [h.count_take, Nat.add_comm]
  · show before.length + line.length ≤ text.length
    omega
  · rw [hline.slice_eq]
    exact hline.inside_front
  · rw [h.slice_eq]
    intro hascii
    rw [units16_ascii hascii]
  · intro hsmall
    exact ⟨Nat.lt_of_le_of_lt hbounded.1 hsmall, Nat.lt_of_le_of_lt hbounded.2 hsmall⟩

end LineOf

section Texts

variable {text : Bytes} {o o' : Nat}

/-- Later offsets have later places. -/
theorem place_lt (hlt : o < o') (ho' : o' ≤ text.length) : text.place o < text.place o' := by
  have hlines := line_positionAt_mono text (Nat.le_of_lt hlt)
  obtain ⟨before, front, back, after, hline, rfl⟩ := exists_lineOf (by omega : o ≤ text.length)
  obtain ⟨before', front', back', after', hline', rfl⟩ := exists_lineOf ho'
  rw [hline.positionAt_eq, hline'.positionAt_eq] at hlines
  rw [hline.place_eq, hline'.place_eq]
  by_cases hsame : before.count newline = before'.count newline
  · -- Two offsets of one line differ by their distances from its start.
    obtain ⟨rfl, -⟩ := hline.unique hline' hsame
    exact .inr ⟨rfl, by simp only; omega⟩
  · exact .inl (Nat.succ_lt_succ (Nat.lt_of_le_of_ne hlines hsame))

theorem place_inj (ho : o ≤ text.length) (ho' : o' ≤ text.length)
    (h : text.place o = text.place o') : o = o' := by
  have hirrefl : ∀ p : Place, ¬p < p := by
    rintro p (hline | ⟨-, hcolumn⟩)
    · exact Nat.lt_irrefl _ hline
    · exact Nat.lt_irrefl _ hcolumn
  rcases Nat.lt_trichotomy o o' with hlt | heq | hlt
  · have hplaces := place_lt hlt ho'
    rw [h] at hplaces
    exact absurd hplaces (hirrefl _)
  · exact heq
  · have hplaces := place_lt hlt ho
    rw [h] at hplaces
    exact absurd hplaces (hirrefl _)

/-- The three computations agree at every offset, and places are in the order of the
text. -/
theorem numbered (text : Bytes) : text.Numbered where
  nearest offset := clamp_eq_max_min text offset
  located offset := by
    obtain ⟨before, front, back, after, hline, ho⟩ := exists_lineOf (clamp_le text offset)
    rw [← place_clamp, ← lineBounds_clamp, ← positionAt_clamp, ho]
    exact hline.located
  increasing _ _ hlt ho' := place_lt hlt ho'
  distinct _ _ ho ho' h := place_inj ho ho' h

end Texts

end Bytes

end Abacus
