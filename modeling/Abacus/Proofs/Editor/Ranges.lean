import Abacus.Proofs.Editor.Hover
import Abacus.Proofs.Editor.Positions
import Abacus.Proofs.Source.Reported

/-!
# The ranges that an editor shows

A range is read back line by line, and the span that it stands for was found by reading
the text from its start.  The two agree because a line end is an ASCII byte: where reading
the text stops, reading the line stops as well (`isBoundary_of_isStop`), however broken
the lines before it are.

All spans of reports and of expressions end between glyphs (`Span.Sound`), so their ranges
lead back to them (`Span.Sound.leadsTo`).
-/

namespace Abacus

namespace Bytes

/-! ## Lines are read as in the text -/

section Line

variable {text before after : Bytes}

theorem glyphs_opened (hopens : ∀ b ∈ before.getLast?, b = newline) (rest : Bytes) :
    glyphs (before ++ rest) = before.glyphs ++ rest.glyphs := by
  cases hlast : before.getLast? with
  | none =>
    rw [List.getLast?_eq_none_iff.mp hlast]
    rfl
  | some b =>
    obtain rfl : b = newline := hopens b hlast
    obtain ⟨front, rfl⟩ := List.getLast?_eq_some_iff.mp hlast
    have hascii : newline.toNat < 0x80 := by decide
    rw [List.append_assoc, List.singleton_append, glyphs_append_cons hascii,
      glyphs_append_cons hascii, ← List.singleton_append, glyphs_ascii_cons hascii,
      List.append_assoc]

theorem glyphs_closed (hcloses : ∀ b ∈ after.head?, b = newline) (line : Bytes) :
    glyphs (line ++ after) = line.glyphs ++ after.glyphs := by
  cases after with
  | nil =>
    rw [List.append_nil]
    exact (List.append_nil _).symm
  | cons b after =>
    obtain rfl : b = newline := hcloses b rfl
    exact glyphs_append_cons (by decide) line after

/-- Where reading the text stops, reading the line stops as well. -/
theorem isBoundary_of_isStop {o : Nat} (h : text.IsStop o) : text.IsBoundary o := by
  obtain ⟨before, front, back, after, hline, rfl⟩ := exists_lineOf (isStop_iff.mp h).1
  rw [hline.isBoundary_iff]
  rw [hline.split, isStop_append (glyphs_opened hline.opens _), List.append_assoc,
    isStop_length_iff, ← List.append_assoc, glyphs_closed hline.closes,
    glyphs_closed hline.closes, ← List.append_assoc] at h
  exact List.append_cancel_right h

end Line

end Bytes

/-! ## Ranges of spans -/

/-- The ends of the range denote the ends of the span. -/
structure Range.LeadsTo (text : Bytes) (r : Range) (s : Span) : Prop where
  start : (text.offsetAt r.start : Int) = s.start
  stop : (text.offsetAt r.stop : Int) = s.stop

namespace Span

variable {text : Bytes} {s : Span} {spans : List Span}

theorem Sound.leadsTo (h : s.Sound text) : (text.rangeOf s).LeadsTo text s := by
  obtain ⟨n, hstart, hn⟩ := h.start
  obtain ⟨m, hstop, hm⟩ := h.stop
  constructor
  · show (text.offsetAt (text.positionAt s.start) : Int) = s.start
    rw [hstart, Bytes.offsetAt_positionAt (Bytes.isBoundary_of_isStop hn)]
  · show (text.offsetAt (text.positionAt s.stop) : Int) = s.stop
    rw [hstop, Bytes.offsetAt_positionAt (Bytes.isBoundary_of_isStop hm)]

theorem sound_foldl_cover (hs : s.Sound text) (hspans : ∀ t ∈ spans, t.Sound text) :
    (spans.foldl cover s).Sound text := by
  induction spans generalizing s with
  | nil => exact hs
  | cons t spans ih =>
    have ht := hspans t List.mem_cons_self
    exact ih (hs.cover ht) fun u hu => hspans u (List.mem_cons_of_mem t hu)

theorem sound_coverAll (hne : spans ≠ []) (hspans : ∀ s ∈ spans, s.Sound text) :
    (coverAll spans).Sound text := by
  cases spans with
  | nil => exact absurd rfl hne
  | cons s spans =>
    exact sound_foldl_cover (hspans s List.mem_cons_self)
      fun t ht => hspans t (List.mem_cons_of_mem s ht)

end Span

/-! ## What the server shows -/

namespace Server

variable {s : Server} {text : Bytes}

/-- What comes back from running a program is what some machine made of it. -/
theorem exists_of_perform_runJob {w : Worker} {p : Program} {o : Outcome}
    (h : (w.perform (runJob p)).1 = .ok o) : ∃ m, (p.runOn m).1 = o := by
  unfold Worker.perform at h
  split at h
  · cases h
  · exact ⟨w.machine, Except.ok.inj h⟩

/-- A check finds the reports that there can be on the text. -/
theorem reported_of_mem_check {d : Diagnostic} (hd : d ∈ (s.check text).1.diagnostics) :
    Reported text d := by
  unfold check at hd
  split at hd
  · next f hcompile =>
    rcases List.mem_append.mp hd with hd | hd
    · exact .scanned hd
    · rw [List.mem_singleton.mp hd]
      exact .compiled hcompile
  · next p hcompile =>
    have warned : ∀ d ∈ p.warnings.map (PlacedFault.diagnostic text), Reported text d := by
      intro d hd
      obtain ⟨w, hw, rfl⟩ := List.mem_map.mp hd
      exact .warned hcompile hw
    simp only at hd
    split at hd
    · exact warned d hd
    · next o hreply =>
      split at hd
      · exact warned d hd
      · next f hresult =>
        rcases List.mem_append.mp hd with hd | hd
        · exact warned d hd
        · obtain ⟨m, hm⟩ := exists_of_perform_runJob hreply
          rw [List.mem_singleton.mp hd]
          exact .run hcompile (by rw [hm]; exact hresult)

theorem sound_of_nodeAt? {p : Position} {n : Node} {kind : Kind}
    (h : nodeAt? text p = some (n, kind)) : n.span.Sound text := by
  obtain ⟨e, k, id, hparse, -, -, hn, -⟩ := nodeAt?_eq_some_iff.mp h
  obtain ⟨first, x, hx, -, -, rfl⟩ := Tree.exists_written (Grammar.written_of_parse hparse) hn
  rw [Expr.span_top]
  exact Grammar.sound_of_written hx

/-- The ranges that are shown denote the bytes they are about: that of a report its spans,
from the first to the last, and that of a description the expression that is described. -/
theorem ranges_lead_back (s : Server) (text : Bytes) :
    (∀ d ∈ (s.check text).1.diagnostics, d.spans ≠ [] →
      (d.note text).range.LeadsTo text d.cover) ∧
    ∀ p h, (s.hoverText text p).1 = some h →
      ∃ n kind, nodeAt? text p = some (n, kind) ∧ h.Describes text n kind ∧
        h.range.LeadsTo text n.span := by
  constructor
  · intro d hd hne
    exact (Span.sound_coverAll hne (reported_of_mem_check hd).sound).leadsTo
  · intro p h hhover
    obtain ⟨n, kind, hnode, hdescribes⟩ := exists_of_hoverText hhover
    refine ⟨n, kind, hnode, hdescribes, ?_⟩
    rw [hdescribes.range_eq]
    exact (sound_of_nodeAt? hnode).leadsTo

/-- In a text that holds a string over two lines, with a byte on the first one that is no
character, and then a character that is no token, the reports are on the two; and behind
two such characters, on two lines, a negation is described. -/
theorem ranges_lead_back_string :
    let s := start {}
    let text : Bytes := [0x22, 0xff, 0x0a] ++ utf8 "😀\" €"
    let text' : Bytes := utf8 "€\n😀-2"
    (∃ d ∈ (s.check text).1.diagnostics, (d.note text).range = ⟨⟨0, 0⟩, ⟨1, 3⟩⟩ ∧
      (d.note text).range.LeadsTo text ⟨0, 8⟩) ∧
    (∃ d ∈ (s.check text).1.diagnostics, (d.note text).range = ⟨⟨1, 4⟩, ⟨1, 5⟩⟩ ∧
      (d.note text).range.LeadsTo text ⟨9, 12⟩) ∧
    ∃ h, (s.hoverText text' ⟨1, 2⟩).1 = some h ∧ h.range.LeadsTo text' ⟨8, 10⟩ := by
  intro s text text'
  let opened : Diagnostic := (s.check text).1.diagnostics.getLast (by decide +kernel)
  let unknown : Diagnostic := (s.check text).1.diagnostics.head (by decide +kernel)
  have hopened : opened ∈ (s.check text).1.diagnostics := List.getLast_mem _
  have hunknown : unknown ∈ (s.check text).1.diagnostics := List.head_mem _
  obtain ⟨hreports, -⟩ := ranges_lead_back s text
  obtain ⟨-, hdescribed⟩ := ranges_lead_back s text'
  have hnode : (nodeAt? text' ⟨1, 2⟩).map (fun found => found.1.span) = some ⟨8, 10⟩ := by
    decide +kernel
  obtain ⟨found, hfound, hspan⟩ := Option.map_eq_some_iff.mp hnode
  obtain ⟨h, hh⟩ : ∃ h, (s.hoverText text' ⟨1, 2⟩).1 = some h := by
    rw [← Option.isSome_iff_exists, hoverText_isSome, hfound]
    rfl
  obtain ⟨n, kind, hn, -, hleads⟩ := hdescribed _ h hh
  obtain rfl : found = (n, kind) := Option.some.inj (hfound.symm.trans hn)
  have hcover : opened.cover = ⟨0, 8⟩ := by decide +kernel
  have hcover' : unknown.cover = ⟨9, 12⟩ := by decide +kernel
  refine ⟨⟨opened, hopened, by decide +kernel, ?_⟩, ⟨unknown, hunknown, by decide +kernel, ?_⟩,
    h, hh, ?_⟩
  · rw [← hcover]
    exact hreports opened hopened (by decide +kernel)
  · rw [← hcover']
    exact hreports unknown hunknown (by decide +kernel)
  · rw [← hspan]
    exact hleads

end Server

end Abacus
