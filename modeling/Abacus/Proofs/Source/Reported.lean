import Abacus.Proofs.FrontEnds
import Abacus.Proofs.Layout.Respan
import Abacus.Proofs.Reports
import Abacus.Proofs.Text.Stops
import Abacus.Proofs.Tree.Spans
import Abacus.Proofs.Typing.Rejection

/-!
# The places of reports

`Reported` lists the reports that there can be on a text: on its scan, on compiling it,
and on a run of its program.  Their spans come from the pieces into which the text is
cut, directly or as the cover of several.

A piece starts and ends where reading the text glyph by glyph stops (`isStop_of_mem`):
scanning goes on from such an offset, and all it takes are single glyphs, bytes up to an
ASCII byte, or all that is left.  `Span.Sound` says this of a span, and that only a span
at the end of the text is empty.  Covering keeps it (`keptByCover_sound`), so it holds of
all spans that compiling can report (`Reported.sound`).  A report shows at most two spans,
and of two the second one behind the first (`Reported.spans_cases`).
-/

namespace Abacus

/-! ## Pieces end between glyphs -/

section Ascii

variable {b : UInt8} {s : Bytes} {k : TokenKind}

theorem toNat_of_isWord (h : Bytes.isWord b = true) : b.toNat < 0x80 := by
  simp only [Bytes.isWord, Bytes.isLetter, Bytes.isDigit, Bool.or_eq_true, Bool.and_eq_true,
    decide_eq_true_eq, UInt8.le_iff_toNat_le, ← UInt8.toNat_inj, UInt8.toNat_ofNat] at h
  omega

theorem toNat_of_mem_mark {m : Mark} (hb : b ∈ m.text) : b.toNat < 0x80 := by
  have hall : m.text.all (fun b => b.toNat < 0x80) = true := by
    cases m <;> decide
  simpa using List.all_eq_true.mp hall b hb

/-- A lexeme ends with an ASCII byte. -/
theorem IsLexeme.ascii_getLast? (h : IsLexeme k s) (hb : b ∈ s.getLast?) : b.toNat < 0x80 := by
  have hmem : b ∈ s := List.mem_of_getLast? hb
  cases k with
  | integer =>
    have hdigit := toNat_of_isDigit (IsNumeral.isDigit h hmem)
    omega
  | float =>
    obtain ⟨whole, fraction, hwhole, hfraction, rfl⟩ := h
    rcases List.mem_append.mp hmem with hmem | hmem
    · have hdigit := toNat_of_isDigit (hwhole.isDigit hmem)
      omega
    · rcases List.mem_cons.mp hmem with rfl | hmem
      · decide
      · have hdigit := toNat_of_isDigit (hfraction.isDigit hmem)
        omega
  | string =>
    obtain ⟨inside, -, rfl⟩ := h
    rw [← List.cons_append, List.getLast?_concat] at hb
    obtain rfl : 0x22 = b := Option.some.inj hb
    decide
  | identifier => exact toNat_of_isWord (List.all_eq_true.mp h.1.all_isWord b hmem)
  | word w =>
    cases h
    exact toNat_of_isWord (List.all_eq_true.mp w.isName_text.all_isWord b hmem)
  | mark m =>
    cases h
    exact toNat_of_mem_mark hmem
  | endOfInput => exact h.elim
  | unknown code => exact h.elim

end Ascii

open Bytes

/-- A piece at the head of a text ends where reading the text stops. -/
theorem PieceOf.isStop {s : Bytes} {p : Piece} (h : PieceOf s p) : s.IsStop p.size := by
  cases h with
  | blank hblank =>
    obtain ⟨b, hb, hbytes⟩ := hblank
    cases s with
    | nil => cases hb
    | cons c rest =>
      obtain rfl : c = b := Option.some.inj hb
      have hascii : c.toNat < 0x80 := by
        rcases hbytes with rfl | rfl | rfl | rfl <;> decide
      exact isStop_behind_ascii hascii [] rest
  | @comment inside rest heq _ hrest =>
    subst heq
    cases rest with
    | nil =>
      rw [List.append_nil]
      exact isStop_length (0x2f :: 0x2f :: inside)
    | cons c rest =>
      obtain rfl : c = newline := hrest c rfl
      exact isStop_before_ascii (by decide) (0x2f :: 0x2f :: inside) rest
  | @token k text _ _ htext =>
    obtain ⟨rest, rfl⟩ := htext.isPrefix
    obtain ⟨b, hb⟩ : ∃ b, text.getLast? = some b := by
      cases hlast : text.getLast? with
      | none => exact absurd (List.getLast?_eq_none_iff.mp hlast) htext.lexeme.ne_nil
      | some b => exact ⟨b, rfl⟩
    have hascii := htext.lexeme.ascii_getLast? hb
    obtain ⟨front, rfl⟩ := List.getLast?_eq_some_iff.mp hb
    rw [List.append_assoc, List.length_append]
    exact isStop_behind_ascii hascii front rest
  | @unexpected b rest heq =>
    subst heq
    exact Glyph.mem_stops.mpr ⟨[Glyph.head b rest], _, glyphs_cons b rest, rfl⟩
  | @unterminated rest heq =>
    subst heq
    exact isStop_length (0x22 :: rest)

theorem isStop_of_mem_piecesFrom {offset : Nat} {s : Bytes} {r : PlacedPiece}
    (hr : r ∈ piecesFrom offset 0 s) :
    s.IsStop (r.offset - offset) ∧ s.IsStop (r.offset - offset + r.piece.size) := by
  induction offset, s using Scan.induction with
  | nil offset => cases hr
  | cut offset s p hp ih =>
    have hstop := hp.isStop
    have hle := hp.size_le
    rw [piecesFrom_of_pieceOf hp] at hr
    rcases List.mem_cons.mp hr with rfl | hr
    · rw [Nat.sub_self, Nat.zero_add]
      exact ⟨isStop_zero s, hstop⟩
    · obtain ⟨hstart, hstop'⟩ := ih hr
      have hoffset := (pieceOf_of_mem_piecesFrom hr).1
      have hsplit : r.offset - offset = p.size + (r.offset - (offset + p.size)) := by omega
      rw [hsplit, Nat.add_assoc]
      exact ⟨hstop.add hstart, hstop.add hstop'⟩

/-- Every piece of a text starts and ends where reading the text stops. -/
theorem isStop_of_mem {source : Bytes} {r : PlacedPiece} (hr : r ∈ pieces source) :
    source.IsStop r.offset ∧ source.IsStop (r.offset + r.piece.size) :=
  isStop_of_mem_piecesFrom hr

/-! ## Spans between glyphs -/

/-- The ends of the span lie in the text and between its glyphs, the first one not behind
the last, and a span that is empty stands at the end of the text. -/
structure Span.Sound (source : Bytes) (s : Span) : Prop where
  start : ∃ n : Nat, s.start = n ∧ source.IsStop n
  stop : ∃ n : Nat, s.stop = n ∧ source.IsStop n
  ordered : s.start ≤ s.stop
  empty : s.start = s.stop → s.start = source.length

section Sound

variable {source : Bytes} {s t : Span}

theorem Span.Sound.bounds (h : s.Sound source) : 0 ≤ s.start ∧ s.stop ≤ source.length := by
  obtain ⟨⟨n, hn, -⟩, ⟨m, hm, hstop⟩, -, -⟩ := h
  have hle := (isStop_iff.mp hstop).1
  omega

theorem Span.sound_of_lt (hstart : ∃ n : Nat, s.start = n ∧ source.IsStop n)
    (hstop : ∃ n : Nat, s.stop = n ∧ source.IsStop n) (hlt : s.start < s.stop) :
    s.Sound source :=
  ⟨hstart, hstop, Int.le_of_lt hlt, fun heq => absurd heq (Int.ne_of_lt hlt)⟩

/-- The cover of two spans starts and ends where one of them does. -/
theorem Span.Sound.cover (hs : s.Sound source) (ht : t.Sound source) :
    (s.cover t).Sound source := by
  have hsbounds := hs.bounds
  have htbounds := ht.bounds
  have hsordered := hs.ordered
  have htordered := ht.ordered
  have hsempty := hs.empty
  unfold Span.cover
  constructor
  · show ∃ n : Nat, (if s.start ≤ t.start then s.start else t.start) = n ∧ source.IsStop n
    split
    · exact hs.start
    · exact ht.start
  · show ∃ n : Nat, (if s.stop ≤ t.stop then t.stop else s.stop) = n ∧ source.IsStop n
    split
    · exact ht.stop
    · exact hs.stop
  · show (if s.start ≤ t.start then s.start else t.start) ≤
      if s.stop ≤ t.stop then t.stop else s.stop
    split <;> split <;> omega
  · show (if s.start ≤ t.start then s.start else t.start) =
      (if s.stop ≤ t.stop then t.stop else s.stop) →
        (if s.start ≤ t.start then s.start else t.start) = (source.length : Int)
    split <;> split <;> omega

theorem keptByCover_sound (source : Bytes) : KeptByCover fun s _ => s.Sound source :=
  fun _ _ _ _ hs ht => hs.cover ht

theorem sound_of_mem_pieces {r : PlacedPiece} (hr : r ∈ pieces source) : r.span.Sound source := by
  obtain ⟨hstart, hstop⟩ := isStop_of_mem hr
  have hpos := (pieceOf_of_mem hr).size_pos
  refine Span.sound_of_lt ⟨_, rfl, hstart⟩ ⟨_, rfl, hstop⟩ ?_
  show (r.offset : Int) < r.offset + r.piece.size
  omega

theorem sound_of_mem_tokens {t : Token} (ht : t ∈ (scan source).tokens) : t.span.Sound source := by
  rcases List.mem_append.mp ht with ht | ht
  · obtain ⟨r, hr, hrt⟩ := List.mem_filterMap.mp ht
    rw [← (PlacedPiece.token?_eq_some_iff.mp hrt).2]
    exact sound_of_mem_pieces hr
  · rw [List.mem_singleton.mp ht]
    have hend := isStop_length source
    exact ⟨⟨_, rfl, hend⟩, ⟨_, rfl, hend⟩, Int.le_refl _, fun _ => rfl⟩

theorem sound_of_mem_faults {f : PlacedFault} (hf : f ∈ (scan source).faults) :
    f.span.Sound source := by
  obtain ⟨r, hr, hrf⟩ := List.mem_filterMap.mp hf
  have hstart := (isStop_of_mem hr).1
  have hpiece := pieceOf_of_mem hr
  unfold PlacedPiece.fault? at hrf
  split at hrf
  · next hkind =>
    -- An unclosed string is shown by its quote, which is an ASCII byte.
    cases hrf
    have hquote : ∃ rest, source.drop r.offset = 0x22 :: rest := by
      generalize r.piece = p at hpiece hkind
      cases hpiece with
      | unterminated heq => exact ⟨_, heq⟩
      | _ => cases hkind
    obtain ⟨rest, hrest⟩ := hquote
    have hbehind : IsStop (source.drop r.offset) 1 := by
      rw [hrest]
      exact isStop_behind_ascii (by decide) [] rest
    exact Span.sound_of_lt ⟨_, rfl, hstart⟩ ⟨_, rfl, hstart.add hbehind⟩ (Int.lt_succ _)
  · cases hrf
    exact sound_of_mem_pieces hr
  · cases hrf

end Sound

/-! ## Spans of expressions -/

namespace Grammar

section Written

variable {source : Bytes} {ts : List Token} {e n : Expr}

/-- The ends of an expression are ends of tokens. -/
theorem Written.sound (hts : ∀ t ∈ ts, t.span.start < t.span.stop)
    (hsound : ∀ t ∈ ts, t.span.Sound source) (h : Written source ts e) : e.span.Sound source := by
  have hlt := h.start_lt_stop hts
  induction h with
  | leaf ht => exact hsound _ ht
  | unary ht hop he hbefore ih =>
    exact Span.sound_of_lt (hsound _ ht).start (ih (he.start_lt_stop hts)).stop hlt
  | binary ht hop hl hr hleft hright ihl ihr =>
    exact Span.sound_of_lt (ihl (hl.start_lt_stop hts)).start (ihr (hr.start_lt_stop hts)).stop hlt

theorem Written.of_mem_parts (h : Written source ts e) (hn : n ∈ e.parts) :
    Written source ts n := by
  induction h with
  | leaf ht hread =>
    rw [List.mem_singleton.mp hn]
    exact .leaf ht hread
  | unary ht hop he hbefore ih =>
    rcases List.mem_append.mp hn with hn | hn
    · exact ih hn
    · rw [List.mem_singleton.mp hn]
      exact .unary ht hop he hbefore
  | binary ht hop hl hr hleft hright ihl ihr =>
    rcases List.mem_append.mp hn with hn | hn
    · rcases List.mem_append.mp hn with hn | hn
      · exact ihl hn
      · exact ihr hn
    · rw [List.mem_singleton.mp hn]
      exact .binary ht hop hl hr hleft hright

end Written

theorem sound_of_written {source : Bytes} {e : Expr}
    (h : Written source ((pieces source).filterMap PlacedPiece.token?) e) : e.span.Sound source :=
  h.sound (fun _ => start_lt_stop_of_mem)
    fun _ ht => sound_of_mem_tokens (List.mem_append_left _ ht)

/-- Where the operands of an operator of a parsed text stand: one, or two of which the
first ends before the second starts. -/
theorem operands_of_node {source : Bytes} {e n : Expr} {path : NodePath}
    (hparse : parse source = .ok e) (hnode : e.node? path = some n) (hop : n.isLeaf = false) :
    (∃ o, n.operands = [o]) ∨
      ∃ l r, n.operands = [l, r] ∧ l.span.start < l.span.stop ∧ l.span.stop ≤ r.span.start := by
  have hts : ∀ t ∈ (pieces source).filterMap PlacedPiece.token?, t.span.start < t.span.stop :=
    fun _ => start_lt_stop_of_mem
  cases (written_of_parse hparse).node hnode with
  | leaf => cases hop
  | unary => exact .inl ⟨_, rfl⟩
  | binary ht _ hl hr hleft hright =>
    have hmark := hts _ ht
    exact .inr ⟨_, _, rfl, hl.start_lt_stop hts, by omega⟩

end Grammar

/-! ## Reports -/

/-- The reports that there can be on a text: on its scan, on compiling it, and on running
its program on any machine. -/
inductive Reported (source : Bytes) : Diagnostic → Prop where
  | scanned {d : Diagnostic} (hd : d ∈ (scan source).diagnostics source) : Reported source d
  | warned {limits : Limits} {p : Program} {w : PlacedFault}
      (hcompile : compile source limits = .ok p) (hw : w ∈ p.warnings) :
      Reported source (w.diagnostic source)
  | compiled {limits : Limits} {f : Failure} (hcompile : compile source limits = .error f) :
      Reported source (f.diagnostic source)
  | run {limits : Limits} {p : Program} {m : Machine} {f : Failure}
      (hcompile : compile source limits = .ok p) (hrun : (p.runOn m).1.result = .error f) :
      Reported source (f.diagnostic source)

section Reported

variable {source : Bytes} {limits : Limits} {p : Program} {d : Diagnostic}

theorem mem_faults_of_mem_warnings {w : PlacedFault} (hcompile : compile source limits = .ok p)
    (hw : w ∈ p.warnings) : w ∈ (scan source).faults := by
  rwa [warnings_of_compile hcompile] at hw

theorem typeOf_of_compile_type {f : TypeFault} (h : compile source limits = .error (.type f)) :
    ∃ e, parse source = .ok e ∧ e.typeOf = .error f := by
  rw [compile_eq] at h
  split at h
  · cases h
  · next e hparse =>
    rw [Tree.typing_ofExpr] at h
    split at h
    · next g hkind =>
      cases h
      exact ⟨e, hparse, hkind⟩
    · split at h <;> cases h

theorem Program.fault_of_runOn {m : Machine} {f : Failure} (h : (p.runOn m).1.result = .error f) :
    ∃ g, (m.execute p.chunk).1.result = .error g ∧ f = .runtime g (p.chunk.spanAt? g.offset) := by
  simp only [Program.runOn, Program.outcomeOf] at h
  cases hresult : (m.execute p.chunk).1.result with
  | ok v =>
    rw [hresult] at h
    cases h
  | error g =>
    rw [hresult] at h
    cases h
    exact ⟨g, rfl, rfl⟩

/-- Compiling reports spans of tokens, and covers of them. -/
theorem sound_of_compile_error {f : Failure} (h : compile source limits = .error f) :
    ∀ s ∈ (f.diagnostic source).spans, s.Sound source := by
  have htokens : TokensAlike (fun s _ => s.Sound source) source source (scan source).tokens
      (scan source).tokens :=
    List.forall₂_same.mpr fun t ht => ⟨rfl, rfl, sound_of_mem_tokens ht⟩
  have hagree := compile_alike (keptByCover_sound source) htokens limits
  rw [h] at hagree
  cases hagree with
  | error halike =>
    intro s hs
    exact List.forall₂_same.mp halike.spans s hs

/-- A run is reported at a part of the expression, if anywhere. -/
theorem sound_of_run {m : Machine} {f : Failure} (hcompile : compile source limits = .ok p)
    (hrun : (p.runOn m).1.result = .error f) :
    ∀ s ∈ (f.diagnostic source).spans, s.Sound source := by
  obtain ⟨e, hparse, hkind, hgenerate⟩ := stages_of_compile hcompile
  obtain ⟨g, hresult, rfl⟩ := Program.fault_of_runOn hrun
  have hreports := (Expr.generated_of_generate hgenerate).reports hkind
    (properLeaves_of_parseTokens hparse) hresult source
  have hwritten := Grammar.written_of_parse hparse
  intro s hs
  rcases hreports.causes with hzero | ⟨depth, hfull⟩
  · obtain ⟨-, n, hn, hspans⟩ := hreports.division hzero
    rw [show (Failure.diagnostic source (.runtime g (p.chunk.spanAt? g.offset))).spans = _ from
      hspans] at hs
    rw [List.mem_singleton.mp hs]
    exact Grammar.sound_of_written (hwritten.of_mem_parts (List.mem_of_find?_eq_some hn))
  · rw [show (Failure.diagnostic source (.runtime g (p.chunk.spanAt? g.offset))).spans = _ from
      (hreports.overflow depth hfull).1] at hs
    cases hs

/-- Every span of a report lies between glyphs of the text. -/
theorem Reported.sound (h : Reported source d) : ∀ s ∈ d.spans, s.Sound source := by
  have hfault : ∀ f ∈ (scan source).faults, ∀ s ∈ (f.diagnostic source).spans, s.Sound source := by
    intro f hf s hs
    rw [List.mem_singleton.mp hs]
    exact sound_of_mem_faults hf
  cases h with
  | scanned hd =>
    obtain ⟨f, hf, rfl⟩ := List.mem_map.mp hd
    exact hfault f hf
  | warned hcompile hw => exact hfault _ (mem_faults_of_mem_warnings hcompile hw)
  | compiled hcompile => exact sound_of_compile_error hcompile
  | run hcompile hrun => exact sound_of_run hcompile hrun

/-- A report shows no span, one span, or two of which the first is not empty and ends
before the second starts. -/
theorem Reported.spans_cases (h : Reported source d) :
    d.spans = [] ∨ (∃ s, d.spans = [s]) ∨
      ∃ s t, d.spans = [s, t] ∧ s.start < s.stop ∧ s.stop ≤ t.start := by
  have runtime : ∀ (f : RuntimeFault) (span? : Option Span),
      (f.diagnostic source span?).spans = [] ∨ ∃ s, (f.diagnostic source span?).spans = [s] := by
    rintro f (_ | span)
    · exact .inl rfl
    · exact .inr ⟨span, rfl⟩
  cases h with
  | scanned hd =>
    obtain ⟨f, -, rfl⟩ := List.mem_map.mp hd
    exact .inr (.inl ⟨_, rfl⟩)
  | warned => exact .inr (.inl ⟨_, rfl⟩)
  | @compiled _ f hcompile =>
    cases f with
    | parse f => exact .inr (.inl ⟨_, rfl⟩)
    | type f =>
      obtain ⟨e, hparse, hkind⟩ := typeOf_of_compile_type hcompile
      obtain ⟨path, n, hfirst⟩ := Expr.exists_firstFault hkind
      have hspans : (Failure.diagnostic source (.type f)).spans = n.operands.map Expr.span :=
        hfirst.spans
      rw [hspans]
      rcases Grammar.operands_of_node hparse hfirst.node hfirst.operator with
        ⟨o, hoperands⟩ | ⟨l, r, hoperands, hlt, hle⟩
      · exact .inr (.inl ⟨o.span, by rw [hoperands]; rfl⟩)
      · exact .inr (.inr ⟨l.span, r.span, by rw [hoperands]; rfl, hlt, hle⟩)
    | capacity f =>
      cases f with
      | nothing => exact .inl rfl
      | constants full span => exact .inr (.inl ⟨span, rfl⟩)
      | code length limit span => exact .inr (.inl ⟨span, rfl⟩)
    | runtime f span? => exact (runtime f span?).imp_right .inl
  | run hcompile hrun =>
    obtain ⟨g, -, rfl⟩ := Program.fault_of_runOn hrun
    exact (runtime g _).imp_right .inl

end Reported

/-- The report is on the text, at the place of its first span. -/
structure Diagnostic.On (source : Bytes) (d : Diagnostic) : Prop where
  source_eq : d.source? = some source
  place_eq : ∀ s ∈ d.spans.head?, d.place = source.place s.start

namespace Diagnostic

theorem on_report (k : DiagnosticKind) (source message : Bytes) (spans : List Span) :
    (report k source message spans).On source := by
  refine ⟨rfl, ?_⟩
  intro s hs
  cases spans with
  | nil => cases hs
  | cons first spans =>
    cases hs
    rfl

/-- The failure underneath a report does not move it. -/
theorem On.because {source : Bytes} {d : Diagnostic} (h : d.On source) (cause? : Option Cause) :
    Diagnostic.On source { d with cause? } :=
  ⟨h.source_eq, h.place_eq⟩

end Diagnostic

theorem Failure.on_diagnostic (source : Bytes) (f : Failure) : (f.diagnostic source).On source := by
  cases f with
  | parse f => exact Diagnostic.on_report ..
  | type f => exact Diagnostic.on_report ..
  | capacity f =>
    cases f with
    | nothing => exact Diagnostic.on_report ..
    | constants full span => exact (Diagnostic.on_report ..).because _
    | code length limit span => exact Diagnostic.on_report ..
  | runtime f span? =>
    cases span? with
    | none => exact (Diagnostic.on_report ..).because _
    | some span => exact (Diagnostic.on_report ..).because _

theorem Reported.on {source : Bytes} {d : Diagnostic} (h : Reported source d) : d.On source := by
  cases h with
  | scanned hd =>
    obtain ⟨f, -, rfl⟩ := List.mem_map.mp hd
    exact Diagnostic.on_report ..
  | warned => exact Diagnostic.on_report ..
  | compiled => exact Failure.on_diagnostic source _
  | run => exact Failure.on_diagnostic source _

end Abacus
