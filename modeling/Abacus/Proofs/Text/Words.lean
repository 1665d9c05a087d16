import Mathlib.Data.List.Infix
import Abacus.Text.Blank
import Abacus.Proofs.Text.Stops

/-!
# The words of a text

The glyphs of a text make it up again (`ofGlyphs_glyphs`), and so does every run of them:
it is read as it was in the text (`glyphs_ofGlyphs`).  The words of a text are such runs.
Together they hold its glyphs that are no white space (`flatten_wordsOf`), and joined by
blanks they are read one by one (`forall_glyphs_join_words`).
-/

namespace Abacus

namespace Bytes

/-! ## Runs of glyphs -/

theorem ofGlyphs_cons (g : Glyph) (gs : List Glyph) : ofGlyphs (g :: gs) = g.bytes ++ ofGlyphs gs :=
  List.flatMap_cons

theorem ofGlyphs_glyphs (s : Bytes) : ofGlyphs s.glyphs = s := by
  induction s using glyphs_induction with
  | nil => rfl
  | cons b s ih =>
    obtain ⟨rest, hrest⟩ := Glyph.bytes_head_isPrefix b s
    have hsize : (Glyph.head b s).bytes.length = (Glyph.head b s).size :=
      (Glyph.size_eq_length _).symm
    have hpos := (Glyph.head b s).size_pos
    have hdrop : rest = s.drop ((Glyph.head b s).size - 1) := by
      have hcut := congrArg (List.drop (Glyph.head b s).size) hrest
      rw [← hsize, List.drop_left] at hcut
      rw [hcut, hsize]
      obtain ⟨n, hn⟩ := Nat.exists_eq_succ_of_ne_zero hpos.ne'
      rw [hn, List.drop_succ_cons, Nat.succ_sub_one]
    rw [glyphs_cons, ofGlyphs_cons, ih, ← hdrop, hrest]

/-- A run of glyphs of a text is read as it was in the text. -/
theorem glyphs_ofGlyphs {s : Bytes} {gs : List Glyph} (h : gs <:+: s.glyphs) :
    glyphs (ofGlyphs gs) = gs := by
  obtain ⟨front, back, hsplit⟩ := h
  rw [List.append_assoc] at hsplit
  obtain ⟨-, hdrop⟩ := glyphs_take_drop hsplit.symm
  obtain ⟨htake, -⟩ := glyphs_take_drop hdrop
  have hsame := ofGlyphs_glyphs ((s.drop (Glyph.totalSize front)).take (Glyph.totalSize gs))
  rw [htake] at hsame
  rw [hsame, htake]

/-! ## Words -/

theorem wordsOf_blank {g : Glyph} (hblank : g.isBlank = true) (gs : List Glyph) :
    wordsOf (g :: gs) = wordsOf gs := by
  rw [wordsOf.eq_def]
  simp [hblank]

/-- A glyph that is no white space starts a word, which goes on with what is next to it. -/
theorem exists_wordsOf_cons {g : Glyph} (hblank : g.isBlank = false) (gs : List Glyph) :
    ∃ w ws, wordsOf (g :: gs) = (g :: w) :: ws ∧ w <+: gs ∧
      w ++ ws.flatten = (wordsOf gs).flatten ∧ ∀ v ∈ ws, v ∈ wordsOf gs := by
  induction gs generalizing g with
  | nil => exact ⟨[], [], by simp [wordsOf, hblank], List.nil_prefix, rfl, by simp⟩
  | cons h gs ih =>
    cases hh : h.isBlank with
    | true =>
      refine ⟨[], wordsOf (h :: gs), ?_, List.nil_prefix, rfl, fun v hv => hv⟩
      rw [wordsOf]
      simp [hblank, hh]
    | false =>
      obtain ⟨w, ws, hwords, hprefix, -, -⟩ := ih hh
      refine ⟨h :: w, ws, ?_, List.cons_prefix_cons.mpr ⟨rfl, hprefix⟩, ?_, ?_⟩
      · rw [wordsOf]
        simp [hblank, hh, hwords]
      · rw [hwords, List.flatten_cons]
      · intro v hv
        rw [hwords]
        exact List.mem_cons_of_mem _ hv

/-- The words hold all glyphs but the white space. -/
theorem flatten_wordsOf (gs : List Glyph) :
    (wordsOf gs).flatten = gs.filter fun g => !g.isBlank := by
  induction gs with
  | nil => rfl
  | cons g gs ih =>
    cases hblank : g.isBlank with
    | true => simp [wordsOf_blank hblank, ih, hblank]
    | false =>
      obtain ⟨w, ws, hwords, -, hflatten, -⟩ := exists_wordsOf_cons hblank gs
      rw [hwords, List.flatten_cons, List.cons_append, hflatten, ih]
      simp [hblank]

theorem isInfix_of_mem_wordsOf {gs v : List Glyph} (hv : v ∈ wordsOf gs) : v <:+: gs := by
  induction gs generalizing v with
  | nil => cases hv
  | cons g gs ih =>
    cases hblank : g.isBlank with
    | true =>
      rw [wordsOf_blank hblank] at hv
      exact List.infix_cons (ih hv)
    | false =>
      obtain ⟨w, ws, hwords, hprefix, -, hrest⟩ := exists_wordsOf_cons hblank gs
      rw [hwords] at hv
      rcases List.mem_cons.mp hv with rfl | hv
      · exact (List.cons_prefix_cons.mpr ⟨rfl, hprefix⟩).isInfix
      · exact List.infix_cons (ih (hrest v hv))

theorem map_glyphs_words (s : Bytes) : s.words.map glyphs = wordsOf s.glyphs := by
  rw [words, List.map_map]
  refine (List.map_congr_left fun w hw => ?_).trans (List.map_id _)
  exact glyphs_ofGlyphs (isInfix_of_mem_wordsOf hw)

/-! ## Joining -/

/-- Texts with blanks between them are read one by one. -/
theorem glyphs_join (parts : List Bytes) :
    glyphs (join [blank] parts) = ((parts.map glyphs).intersperse (glyphs [blank])).flatten := by
  induction parts with
  | nil => rfl
  | cons p parts ih =>
    cases parts with
    | nil => simp [join]
    | cons q parts =>
      have hjoin : join [blank] (p :: q :: parts) = p ++ blank :: join [blank] (q :: parts) := by
        simp [join]
      rw [hjoin, glyphs_append_cons (by decide), ← List.singleton_append,
        glyphs_ascii_cons (by decide), ih]
      simp

theorem forall_mem_flatten_intersperse {α : Type*} {P : α → Prop} {sep : List α}
    (hsep : ∀ a ∈ sep, P a) (parts : List (List α)) :
    (∀ a ∈ (parts.intersperse sep).flatten, P a) ↔ ∀ a ∈ parts.flatten, P a := by
  induction parts with
  | nil => rfl
  | cons p parts ih =>
    cases parts with
    | nil => rfl
    | cons q parts =>
      rw [List.intersperse_cons_cons, List.flatten_cons, List.flatten_cons, List.flatten_cons,
        List.forall_mem_append, List.forall_mem_append, List.forall_mem_append, ih,
        and_iff_right hsep]

/-- What holds of a blank holds of all glyphs of the joined words just if it holds of all
glyphs of the text that are no white space. -/
theorem forall_glyphs_join_words {P : Glyph → Prop} (hblank : P (.char ' ')) (s : Bytes) :
    (∀ g ∈ glyphs (join [blank] s.words), P g) ↔ ∀ g ∈ s.glyphs, g.isBlank = false → P g := by
  have hsep : ∀ g ∈ glyphs [blank], P g := by
    intro g hg
    have hone : glyphs [blank] = [.char ' '] := by decide
    rw [hone, List.mem_singleton] at hg
    exact hg ▸ hblank
  rw [glyphs_join, forall_mem_flatten_intersperse hsep, map_glyphs_words, flatten_wordsOf]
  simp [List.mem_filter]

/-- No words are left just of white space. -/
theorem join_words_eq_nil_iff (s : Bytes) :
    join [blank] s.words = [] ↔ ∀ g ∈ s.glyphs, g.isBlank = true := by
  constructor
  · intro hnil g hg
    by_contra hblank
    have hnone : ∀ h ∈ glyphs (join [blank] s.words), h.isBlank = true := by
      rw [hnil]
      intro h hh
      cases hh
    have hall := (forall_glyphs_join_words (P := fun h => h.isBlank = true) rfl s).mp hnone
    exact hblank (hall g hg (by simpa using hblank))
  · intro hall
    have hwords : wordsOf s.glyphs = [] := by
      generalize s.glyphs = gs at hall
      induction gs with
      | nil => rfl
      | cons g gs ih =>
        rw [wordsOf_blank (hall g List.mem_cons_self)]
        exact ih fun h hh => hall h (List.mem_cons_of_mem _ hh)
    rw [words, hwords]
    rfl

/-- A line end is a glyph of its own. -/
theorem newline_notMem {s : Bytes} (h : ∀ g ∈ s.glyphs, g ≠ .char '\n') : newline ∉ s := by
  intro hmem
  obtain ⟨front, back, rfl⟩ := List.append_of_mem hmem
  rw [glyphs_append_cons (by decide), ← List.singleton_append, glyphs_ascii_cons (by decide)] at h
  have hone : glyphs [newline] = [.char '\n'] := by decide
  rw [hone] at h
  exact h (.char '\n') (by simp) rfl

end Bytes

end Abacus
