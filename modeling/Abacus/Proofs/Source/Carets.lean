import Mathlib.Data.List.DropRight
import Abacus.Proofs.Source.Lines
import Abacus.Proofs.Source.Reported

/-!
# Carets under a source line

A report is shown with the line of its first span and a row of marks under it.  `Carets`
says how the row stands under the line: carets under the bytes of the spans, dashes
between two spans, and before the first caret what keeps the two aligned.

The row is described mark by mark (`markUnder`).  The loop that builds it writes nothing
under some bytes.  That this moves no later mark is due to the spans of a report: they
follow each other, so bytes without a mark stand behind all of them (`getElem?_marks`).
-/

namespace Abacus

open Bytes

/-- One or two spans in the text, each before the next. -/
structure Arranged (source : Bytes) (spans : List Span) : Prop where
  few : spans.length = 1 ∨ spans.length = 2
  within : ∀ s ∈ spans, 0 ≤ s.start ∧ s.start ≤ s.stop ∧ s.stop ≤ source.length
  ordered : spans.Pairwise fun s t => s.stop ≤ t.start

/-- The row of marks stands under the line `shown`, which starts at `start`: carets (`0x5e`)
under the bytes of the spans, the first one in the column or behind the line, and dashes
(`0x2d`) between two spans. -/
structure Carets (spans : List Span) (start column : Nat) (shown row : Bytes) : Prop where
  caret : row[min (column - 1) shown.length]? = some 0x5e
  /-- Before the first caret tabs are kept. -/
  before : ∀ j < min (column - 1) shown.length,
    row[j]? = some (if shown[j]? = some 0x09 then 0x09 else 0x20)
  under : ∀ j < shown.length, row[j]? = some 0x5e ↔ ∃ s ∈ spans, s.contains (start + j : Nat) = true
  between : ∀ j, min (column - 1) shown.length < j → ∀ m ∈ row[j]?, m ≠ 0x5e →
    m = 0x2d ∧ ∃ s t, spans = [s, t] ∧ s.stop ≤ (start + j : Nat) ∧ (start + j : Nat) < t.start
  short : row.length ≤ shown.length + 1

namespace Diagnostic

/-- What is shown before the source line. -/
def opening (d : Diagnostic) : Bytes :=
  let margin := copies (ofNat d.place.line).length blank
  d.kind.name ++ utf8 ": " ++ d.message ++ utf8 "\n" ++
    margin ++ utf8 "--> line " ++ ofNat d.place.line ++ utf8 ", column " ++ ofNat d.place.column ++
      utf8 "\n" ++
    margin ++ utf8 " |\n"

/-- The report shows a line and a row of marks, both behind a margin of one width.  The line
is the one of the source text in which the first span starts, without its line end and
one carriage return before it. -/
structure Prints (source : Bytes) (d : Diagnostic) (start : Nat) (shown row : Bytes) : Prop where
  render_eq : d.render = d.opening ++
    ofNat d.place.line ++ utf8 " | " ++ shown ++ utf8 "\n" ++
    copies (ofNat d.place.line).length blank ++ utf8 " | " ++ row ++ utf8 "\n"
  line_eq : ∃ before ending after, LineOf source before (shown ++ ending) after ∧
    before.length = start ∧ before.count newline + 1 = d.place.line ∧
    d.place.column ≤ (shown ++ ending).length + 1 ∧
    (ending = [0x0d] ∨ ending = [] ∧ shown.getLast? ≠ some 0x0d)
  start_eq : ∀ s ∈ d.spans.head?, s.start + 1 = (start + d.place.column : Nat)

/-! ## The marks one by one -/

/-- The byte lies in one of the spans. -/
def inSpans (spans : List Span) (o : Nat) : Bool :=
  spans.any fun s => s.contains o

/-- The mark under the byte `b` at offset `o`, if there is one. -/
def markUnder (spans : List Span) (cover : Span) (o : Nat) (b : UInt8) : Option UInt8 :=
  if (o : Int) < cover.start then some (if b = 0x09 then 0x09 else 0x20)
  else if inSpans spans o then some 0x5e
  else if (o : Int) < cover.stop then some 0x2d
  else none

/-- What the loop writes under the byte, when it has written a caret before or not. -/
def markWritten (spans : List Span) (cover : Span) (marked : Bool) (o : Nat) (b : UInt8) :
    Option UInt8 :=
  if inSpans spans o then some 0x5e
  else if cover.contains o && marked then some 0x2d
  else if (o : Int) < cover.start then some (if b = 0x09 then 0x09 else 0x20)
  else none

section Marks

variable {spans : List Span} {cover : Span} {i o : Nat} {marked : Bool} {b : UInt8} {shown : Bytes}

theorem inSpans_iff : inSpans spans o = true ↔ ∃ s ∈ spans, s.contains o = true := by
  simp [inSpans]

theorem marks_cons (spans : List Span) (cover : Span) (i : Nat) (marked : Bool) (b : UInt8)
    (shown : Bytes) :
    marks spans cover i marked (b :: shown) =
      ((markWritten spans cover marked i b).toList ++
          (marks spans cover (i + 1) (marked || inSpans spans i) shown).1,
        (marks spans cover (i + 1) (marked || inSpans spans i) shown).2) := by
  rw [marks, ← inSpans, markWritten]
  by_cases hin : inSpans spans i = true
  · rw [if_pos hin, if_pos hin, hin, Bool.or_true]
    rfl
  · rw [if_neg hin, if_neg hin, Bool.eq_false_iff.mpr hin, Bool.or_false]
    dsimp only
    split
    · rfl
    · split <;> rfl

/-- Something is marked just if a byte of the line lies in a span. -/
theorem marks_snd : (marks spans cover i marked shown).2 = true ↔
    marked = true ∨ ∃ j < shown.length, inSpans spans (i + j) = true := by
  induction shown generalizing i marked with
  | nil => simp [marks]
  | cons b shown ih =>
    rw [marks_cons, ih, Bool.or_eq_true, or_assoc, List.length_cons, Nat.exists_lt_succ_left]
    simp only [Nat.add_zero, Nat.add_assoc, Nat.add_comm 1]

/-- The spans of a report and their cover, as far as the marks depend on them. -/
structure Covered (spans : List Span) (cover : Span) : Prop where
  covers : ∀ o, inSpans spans o = true → cover.contains o = true
  gap : ∀ o : Nat, cover.contains o = true → inSpans spans o = false →
    ∃ s t, spans = [s, t] ∧ s.stop ≤ o ∧ o < t.start

namespace Covered

theorem markUnder_eq_none_iff (h : Covered spans cover) :
    markUnder spans cover o b = none ↔ cover.start ≤ o ∧ cover.stop ≤ o := by
  unfold markUnder
  split_ifs with hbefore hin hstop
  · exact iff_of_false nofun (by omega)
  · have hcontains := Span.contains_iff.mp (h.covers o hin)
    exact iff_of_false nofun (by omega)
  · exact iff_of_false nofun (by omega)
  · exact iff_of_true rfl (by omega)

/-- Behind the start of the spans a caret has been written, so all bytes up to the end of
the spans get a mark. -/
theorem markWritten_eq (h : Covered spans cover) (hfirst : cover.start = o → inSpans spans o = true)
    (hmarked : cover.start < o → marked = true) :
    markWritten spans cover marked o b = markUnder spans cover o b := by
  unfold markWritten markUnder
  by_cases hin : inSpans spans o = true
  · have hcontains := Span.contains_iff.mp (h.covers o hin)
    rw [if_pos hin, if_pos hin, if_neg (by omega)]
  · rw [if_neg hin, if_neg hin]
    by_cases hbefore : (o : Int) < cover.start
    · have hout : ¬(cover.contains o && marked) = true := by
        rw [Bool.and_eq_true, Span.contains_iff]
        omega
      rw [if_neg hout, if_pos hbefore, if_pos hbefore]
    · have hne : cover.start ≠ o := fun heq => hin (hfirst heq)
      have hiff : (cover.contains o && marked) = true ↔ (o : Int) < cover.stop := by
        rw [Bool.and_eq_true, Span.contains_iff, and_iff_left (hmarked (by omega))]
        omega
      rw [if_neg hbefore, if_neg hbefore]
      simp only [hiff]

/-- The mark under each byte of a line. -/
theorem getElem?_marks (h : Covered spans cover)
    (hfirst : ∀ o < i + shown.length, cover.start = o → inSpans spans o = true)
    (hmarked : cover.start < i → marked = true) (j : Nat) :
    (marks spans cover i marked shown).1[j]? =
      shown[j]?.bind fun b => markUnder spans cover (i + j) b := by
  induction shown generalizing i marked j with
  | nil => rfl
  | cons b shown ih =>
    have hstart : cover.start = i → inSpans spans i = true := hfirst i (by simp)
    have hlater : ∀ o < i + 1 + shown.length, cover.start = o → inSpans spans o = true := by
      intro o hlt
      exact hfirst o (by rw [List.length_cons]; omega)
    have hmarked' : cover.start < (i + 1 : Nat) → (marked || inSpans spans i) = true := by
      intro hlt
      rw [Bool.or_eq_true]
      by_cases heq : cover.start = i
      · exact .inr (hstart heq)
      · exact .inl (hmarked (by omega))
    have htail : ∀ j, (marks spans cover (i + 1) (marked || inSpans spans i) shown).1[j]? =
        shown[j]?.bind fun b => markUnder spans cover (i + (j + 1)) b := by
      intro j
      rw [ih hlater hmarked' j, Nat.add_right_comm, Nat.add_assoc]
    rw [marks_cons, h.markWritten_eq hstart hmarked]
    dsimp only
    cases hunder : markUnder spans cover i b with
    | some m =>
      cases j with
      | zero => exact hunder.symm
      | succ j => exact htail j
    | none =>
      -- The row is one mark short from here on, but there are no marks from here on.
      have hnone : ∀ (j : Nat) (c : UInt8), markUnder spans cover (i + j) c = none := by
        intro j c
        have hbehind := h.markUnder_eq_none_iff.mp hunder
        rw [h.markUnder_eq_none_iff]
        omega
      rw [Option.toList_none, List.nil_append, htail]
      simp [hnone]

/-- A caret stands just under the bytes of the spans. -/
theorem markUnder_eq_caret_iff (h : Covered spans cover) :
    markUnder spans cover o b = some 0x5e ↔ inSpans spans o = true := by
  unfold markUnder
  by_cases hbefore : (o : Int) < cover.start
  · rw [if_pos hbefore]
    refine iff_of_false (by split_ifs <;> decide) fun hin => ?_
    have hcontains := Span.contains_iff.mp (h.covers o hin)
    omega
  · rw [if_neg hbefore]
    split_ifs with hin hstop
    · exact iff_of_true rfl hin
    · exact iff_of_false (by decide) hin
    · exact iff_of_false nofun hin

/-- What is no caret behind the start of the spans is a dash between two of them. -/
theorem dash_of_markUnder {m : UInt8} (h : Covered spans cover) (hle : cover.start ≤ o)
    (hm : markUnder spans cover o b = some m) (hne : m ≠ 0x5e) :
    m = 0x2d ∧ ∃ s t, spans = [s, t] ∧ s.stop ≤ o ∧ o < t.start := by
  unfold markUnder at hm
  rw [if_neg (by omega)] at hm
  split_ifs at hm with hin hstop
  · exact absurd (Option.some.inj hm).symm hne
  · exact ⟨(Option.some.inj hm).symm,
      h.gap o (Span.contains_iff.mpr ⟨hle, hstop⟩) (Bool.eq_false_iff.mpr hin)⟩

end Covered

end Marks

/-! ## The row -/

/-- The row of marks before dashes at its end are dropped. -/
def fullRow (d : Diagnostic) (start : Nat) (shown : Bytes) : Bytes :=
  let (row, marked) := marks d.spans d.cover start false shown
  if marked then row else row ++ [0x5e]

theorem underline_eq (d : Diagnostic) (start : Nat) (shown : Bytes) :
    d.underline start shown = (d.fullRow start shown).rdropWhile (· = 0x2d) :=
  rfl

section Row

variable {d : Diagnostic} {start k : Nat} {shown : Bytes}

namespace Covered

theorem getElem?_row (h : Covered d.spans d.cover) (hk : d.cover.start = (start + k : Nat))
    (hfirst : k < shown.length → inSpans d.spans (start + k) = true) (j : Nat) :
    (marks d.spans d.cover start false shown).1[j]? =
      shown[j]?.bind fun b => markUnder d.spans d.cover (start + j) b := by
  refine h.getElem?_marks ?_ (by omega) j
  intro o hlt heq
  obtain rfl : o = start + k := by omega
  exact hfirst (by omega)

theorem length_row_le (h : Covered d.spans d.cover) (hk : d.cover.start = (start + k : Nat))
    (hfirst : k < shown.length → inSpans d.spans (start + k) = true) :
    (marks d.spans d.cover start false shown).1.length ≤ shown.length := by
  rw [← List.getElem?_eq_none_iff, h.getElem?_row hk hfirst, List.getElem?_eq_none (Nat.le_refl _)]
  rfl

/-- Up to the first span the row keeps tabs and is blank otherwise. -/
theorem getElem?_row_before (h : Covered d.spans d.cover)
    (hk : d.cover.start = (start + k : Nat))
    (hfirst : k < shown.length → inSpans d.spans (start + k) = true) {j : Nat} (hj : j < k)
    (hline : j < shown.length) :
    (marks d.spans d.cover start false shown).1[j]? =
      some (if shown[j]? = some 0x09 then 0x09 else 0x20) := by
  rw [h.getElem?_row hk hfirst, List.getElem?_eq_getElem hline, Option.bind_some, markUnder,
    if_pos (by omega)]
  simp only [Option.some.injEq]

/-- The spans start in the line. -/
theorem carets_within (h : Covered d.spans d.cover) (hk : d.cover.start = (start + k : Nat))
    (hlt : k < shown.length) (hfirst : inSpans d.spans (start + k) = true) :
    Carets d.spans start (k + 1) shown (d.fullRow start shown) := by
  have hmarked : (marks d.spans d.cover start false shown).2 = true :=
    marks_snd.mpr (.inr ⟨k, hlt, hfirst⟩)
  have hrow : d.fullRow start shown = (marks d.spans d.cover start false shown).1 := if_pos hmarked
  have hmarks := h.getElem?_row hk fun (_ : k < shown.length) => hfirst
  have hmin : min (k + 1 - 1) shown.length = k := by omega
  rw [hrow]
  constructor
  · rw [hmin, hmarks, List.getElem?_eq_getElem hlt]
    exact h.markUnder_eq_caret_iff.mpr hfirst
  · intro j hj
    exact h.getElem?_row_before hk (fun _ => hfirst) (by omega) (by omega)
  · intro j hj
    rw [hmarks, List.getElem?_eq_getElem hj, ← inSpans_iff]
    exact h.markUnder_eq_caret_iff
  · intro j hj m hm hne
    rw [hmarks] at hm
    obtain ⟨b, -, hunder⟩ := Option.bind_eq_some_iff.mp hm
    exact h.dash_of_markUnder (by omega) hunder hne
  · exact Nat.le_succ_of_le (h.length_row_le hk fun _ => hfirst)

/-- The spans start behind the line. -/
theorem carets_behind (h : Covered d.spans d.cover) (hk : d.cover.start = (start + k : Nat))
    (hle : shown.length ≤ k) : Carets d.spans start (k + 1) shown (d.fullRow start shown) := by
  have hout : ∀ j < shown.length, ¬inSpans d.spans (start + j) = true := by
    intro j hj hin
    have hcontains := Span.contains_iff.mp (h.covers _ hin)
    omega
  have hmarked : ¬(marks d.spans d.cover start false shown).2 = true := by
    rw [marks_snd]
    rintro (hfalse | ⟨j, hj, hin⟩)
    · cases hfalse
    · exact hout j hj hin
  have hrow : d.fullRow start shown = (marks d.spans d.cover start false shown).1 ++ [0x5e] :=
    if_neg hmarked
  have hbefore : ∀ j < shown.length, (marks d.spans d.cover start false shown).1[j]? =
      some (if shown[j]? = some 0x09 then 0x09 else 0x20) :=
    fun j hj => h.getElem?_row_before hk (by omega) (by omega) hj
  have hlength : (marks d.spans d.cover start false shown).1.length = shown.length := by
    refine Nat.le_antisymm (h.length_row_le hk (by omega)) ?_
    by_contra hshort
    have hsome := hbefore _ (Nat.lt_of_not_le hshort)
    rw [List.getElem?_eq_none (Nat.le_refl _)] at hsome
    cases hsome
  have hmin : min (k + 1 - 1) shown.length = shown.length := by omega
  rw [hrow]
  constructor
  · rw [hmin, ← hlength, List.getElem?_concat_length]
  · intro j hj
    rw [List.getElem?_append_left (by omega), hbefore j (by omega)]
  · intro j hj
    rw [List.getElem?_append_left (by omega), hbefore j hj, ← inSpans_iff]
    refine iff_of_false ?_ (hout j hj)
    split_ifs <;> decide
  · intro j hj m hm
    rw [List.getElem?_eq_none (by rw [List.length_append, List.length_singleton]; omega)] at hm
    cases hm
  · rw [List.length_append, List.length_singleton, hlength]

end Covered

end Row

end Diagnostic

/-! ## Dashes at the end -/

section Trimmed

variable {p : UInt8 → Bool} {row shown : Bytes} {spans : List Span} {start column : Nat}

theorem getElem?_of_rdropWhile {j : Nat} {m : UInt8} (h : (row.rdropWhile p)[j]? = some m) :
    row[j]? = some m := by
  obtain ⟨hj, rfl⟩ := List.getElem?_eq_some_iff.mp h
  exact List.prefix_iff_getElem?.mp (List.rdropWhile_prefix p row) j hj

theorem getElem?_rdropWhile {j : Nat} {m : UInt8} (hm : ¬p m = true) :
    (row.rdropWhile p)[j]? = some m ↔ row[j]? = some m := by
  refine ⟨getElem?_of_rdropWhile, fun h => ?_⟩
  rw [← List.rdropWhile_append_rtakeWhile (p := p) (l := row)] at h
  by_cases hj : j < (row.rdropWhile p).length
  · rwa [List.getElem?_append_left hj] at h
  · rw [List.getElem?_append_right (Nat.le_of_not_lt hj)] at h
    exact absurd (List.mem_rtakeWhile_imp (List.mem_of_getElem? h)) hm

namespace Carets

/-- Dropping dashes at the end moves no other mark. -/
theorem rdropWhile (h : Carets spans start column shown row) :
    Carets spans start column shown (row.rdropWhile (· = 0x2d)) := by
  constructor
  · rw [getElem?_rdropWhile (by decide)]
    exact h.caret
  · intro j hj
    rw [getElem?_rdropWhile (by split_ifs <;> decide)]
    exact h.before j hj
  · intro j hj
    rw [getElem?_rdropWhile (by decide)]
    exact h.under j hj
  · intro j hj m hm
    exact h.between j hj m (getElem?_of_rdropWhile hm)
  · exact (List.rdropWhile_prefix _ row).length_le.trans h.short

theorem idxOf_eq (h : Carets spans start column shown row) :
    row.idxOf 0x5e = min (column - 1) shown.length := by
  obtain ⟨hlt, hcaret⟩ := List.getElem?_eq_some_iff.mp h.caret
  refine (List.findIdx_eq hlt).mpr ⟨by simp [hcaret], fun j hj => ?_⟩
  have hbefore := h.before j hj
  rw [List.getElem?_eq_getElem (by omega), Option.some.injEq] at hbefore
  rw [hbefore]
  split_ifs <;> decide

end Carets

theorem Diagnostic.getLast?_underline_ne (d : Diagnostic) (start : Nat) (shown : Bytes) :
    (d.underline start shown).getLast? ≠ some 0x2d := by
  rw [Diagnostic.underline_eq]
  intro hlast
  have hne : (d.fullRow start shown).rdropWhile (· = 0x2d) ≠ [] := by
    intro hnil
    rw [hnil] at hlast
    cases hlast
  have hnot := List.rdropWhile_last_not _ _ hne
  rw [List.getLast?_eq_some_getLast hne, Option.some.injEq] at hlast
  rw [hlast] at hnot
  exact hnot (by decide)

end Trimmed

/-! ## Reports -/

namespace Diagnostic

theorem covered_one (s : Span) : Covered [s] (Span.coverAll [s]) where
  covers o hin := by
    rwa [inSpans, List.any_cons, List.any_nil, Bool.or_false] at hin
  gap o hcontains hin := by
    rw [inSpans, List.any_cons, List.any_nil, Bool.or_false] at hin
    exact absurd hcontains (Bool.eq_false_iff.mp hin)

theorem covered_two {s t : Span} (hle : s.stop ≤ t.start) (hs : s.start ≤ s.stop)
    (ht : t.start ≤ t.stop) : Covered [s, t] (Span.coverAll [s, t]) := by
  have hcover : Span.coverAll [s, t] = ⟨s.start, t.stop⟩ := Span.cover_eq (by omega) (by omega)
  have hin : ∀ o : Nat, inSpans [s, t] o = true ↔
      s.start ≤ o ∧ o < s.stop ∨ t.start ≤ o ∧ o < t.stop := by
    intro o
    simp [inSpans, Span.contains_iff]
  rw [hcover]
  constructor
  · intro o ho
    rw [hin] at ho
    exact Span.contains_iff.mpr ⟨by dsimp only; omega, by dsimp only; omega⟩
  · intro o ho hout
    rw [Bool.eq_false_iff, Ne, hin] at hout
    have hends : s.start ≤ o ∧ o < t.stop := Span.contains_iff.mp ho
    exact ⟨s, t, rfl, by omega, by omega⟩

end Diagnostic

namespace Reported

open Diagnostic

variable {source : Bytes} {d : Diagnostic}

theorem arranged (h : Reported source d) (hne : d.spans ≠ []) : Arranged source d.spans := by
  have hwithin : ∀ s ∈ d.spans, 0 ≤ s.start ∧ s.start ≤ s.stop ∧ s.stop ≤ source.length := by
    intro s hs
    have hsound := h.sound s hs
    exact ⟨hsound.bounds.1, hsound.ordered, hsound.bounds.2⟩
  rcases h.spans_cases with hnil | ⟨s, hone⟩ | ⟨s, t, htwo, -, hle⟩
  · exact absurd hnil hne
  · refine ⟨.inl (by rw [hone]; rfl), hwithin, ?_⟩
    rw [hone]
    exact List.pairwise_singleton _ s
  · refine ⟨.inr (by rw [htwo]; rfl), hwithin, ?_⟩
    rw [htwo]
    exact List.pairwise_pair.mpr hle

theorem covered (h : Reported source d) (hne : d.spans ≠ []) :
    Covered d.spans d.cover ∧ ∀ s ∈ d.spans.head?, d.cover.start = s.start := by
  have hordered : ∀ s ∈ d.spans, s.start ≤ s.stop := fun s hs => (h.sound s hs).ordered
  unfold Diagnostic.cover
  rcases h.spans_cases with hnil | ⟨s, hone⟩ | ⟨s, t, htwo, -, hle⟩
  · exact absurd hnil hne
  · rw [hone]
    refine ⟨covered_one s, ?_⟩
    rintro _ ⟨⟩
    rfl
  · rw [htwo] at hordered ⊢
    have hs := hordered s (by simp)
    refine ⟨covered_two hle hs (hordered t (by simp)), ?_⟩
    rintro _ ⟨⟩
    exact if_pos (by omega)

/-- The row under the line in which the first span starts. -/
theorem carets {first : Span} {before shown ending after : Bytes} {k : Nat}
    (h : Reported source d) (hfirst : first ∈ d.spans.head?)
    (hline : LineOf source before (shown ++ ending) after)
    (hstart : first.start = (before.length + k : Nat)) :
    Carets d.spans before.length (k + 1) shown (d.underline before.length shown) := by
  have hmem : first ∈ d.spans := List.mem_of_head? hfirst
  obtain ⟨hcovered, hcover⟩ := h.covered (List.ne_nil_of_mem hmem)
  have hk : d.cover.start = (before.length + k : Nat) := by rw [hcover first hfirst, hstart]
  rw [underline_eq]
  refine Carets.rdropWhile ?_
  by_cases hlt : k < shown.length
  · -- An empty span would stand behind the line, at the end of the text.
    have hsound := h.sound first hmem
    have hordered := hsound.ordered
    have hempty := hsound.empty
    have hlength := hline.length_eq
    rw [List.length_append] at hlength
    refine hcovered.carets_within hk hlt (inSpans_iff.mpr ⟨first, hmem, ?_⟩)
    rw [Span.contains_iff]
    omega
  · exact hcovered.carets_behind hk (Nat.le_of_not_lt hlt)

/-- A report prints the line in which its first span starts. -/
theorem exists_prints {first : Span} (h : Reported source d) (hfirst : first ∈ d.spans.head?) :
    ∃ start shown, d.Prints source start shown (d.underline start shown) ∧
      Carets d.spans start d.place.column shown (d.underline start shown) := by
  obtain ⟨n, hstart, hstop⟩ := (h.sound first (List.mem_of_head? hfirst)).start
  obtain ⟨before, front, back, after, hcut, rfl⟩ := exists_lineOf (isStop_iff.mp hstop).1
  obtain ⟨shown, ending, hwhole, hending, hbounds⟩ := hcut.lineBounds_eq
  have hplace : d.place = ⟨before.count newline + 1, front.length + 1⟩ := by
    rw [h.on.place_eq first hfirst, hstart, hcut.place_eq]
  have hline : LineOf source before (shown ++ ending) after := by rwa [← hwhole]
  refine ⟨before.length, shown, ⟨?_, ?_, ?_⟩, ?_⟩
  · obtain ⟨rest, hspans⟩ := List.head?_eq_some_iff.mp hfirst
    unfold Diagnostic.render
    rw [hspans, h.on.source_eq]
    dsimp only
    rw [hstart, hbounds]
    dsimp only
    rw [hline.slice_eq]
    simp only [opening, List.append_assoc]
  · refine ⟨before, ending, after, hline, rfl, by rw [hplace], ?_, hending⟩
    rw [hplace, ← hwhole, List.length_append]
    dsimp only
    omega
  · intro s hs
    obtain rfl : first = s := Option.some.inj (hfirst.symm.trans hs)
    rw [hstart, hplace]
    dsimp only
    omega
  · rw [hplace]
    exact h.carets hfirst hline hstart

/-- The carets of a report line up with the source.  A report with a span has one or two,
in order, and shows the line in which the first one starts with a row of marks under it,
whose first caret is in the column of the report and which does not end with a dash. -/
theorem render_aligned (h : Reported source d) (hne : d.spans ≠ []) :
    Arranged source d.spans ∧ ∃ start shown row, d.Prints source start shown row ∧
      Carets d.spans start d.place.column shown row ∧
      row.idxOf 0x5e = min (d.place.column - 1) shown.length ∧ row.getLast? ≠ some 0x2d := by
  obtain ⟨first, hfirst⟩ : ∃ first, first ∈ d.spans.head? :=
    ⟨d.spans.head hne, List.head?_eq_some_head hne⟩
  obtain ⟨start, shown, hprints, hcarets⟩ := h.exists_prints hfirst
  exact ⟨h.arranged hne, start, shown, _, hprints, hcarets, hcarets.idxOf_eq,
    d.getLast?_underline_ne start shown⟩

/-- Two operands on the second line of a text, with a tab before each of them: the row keeps
the first tab, and has a dash under the second. -/
theorem render_aligned_sum :
    let source := utf8 "1 <\r\n\t-1 + (\ttrue)\r\n"
    let d := (Failure.type (.different .add .int .bool ⟨6, 8⟩ ⟨13, 17⟩)).diagnostic source
    Reported source d ∧ d.spans ≠ [] ∧
      d.render = utf8 "type error: type mismatch: cannot apply '+' to left operand of type int " ++
        utf8 "and right operand of type bool\n --> line 2, column 2\n  |\n" ++
        utf8 "2 | \t-1 + (\ttrue)\n" ++
        utf8 "  | \t^^-----^^^^\n" ∧
      Arranged source d.spans ∧ ∃ start shown row, d.Prints source start shown row ∧
        Carets d.spans start d.place.column shown row ∧
        row.idxOf 0x5e = min (d.place.column - 1) shown.length ∧ row.getLast? ≠ some 0x2d := by
  intro source d
  have hcompile : compile source {} =
      .error (.type (.different .add .int .bool ⟨6, 8⟩ ⟨13, 17⟩)) := by decide +kernel
  have hreported : Reported source d := .compiled hcompile
  exact ⟨hreported, by decide, by decide +kernel, render_aligned hreported (by decide)⟩

end Reported

end Abacus
