import Abacus.Proofs.Layout.Respan
import Abacus.Proofs.Layout.Written

/-!
# Layout does not change a program

Two ways of writing the same lexemes have the same tokens at other places.  The
spans of the two texts are related when they run from the token of one number to
the token of another, with the same two numbers in both (`SameTokens`).  Tokens
stand in order, so covering keeps this relation, and `compile_alike` applies.
-/

namespace Abacus

/-! ## Tokens in order -/

def InOrder (t u : Token) : Prop :=
  t.span.start ≤ u.span.start ∧ t.span.stop ≤ u.span.stop

theorem scan_pairwise (source : Bytes) : (scan source).tokens.Pairwise InOrder := by
  have htiles := tiles_pieces source
  have hspan : ∀ {r : PlacedPiece} {t : Token}, r.token? = some t →
      t.span.start = r.offset ∧ t.span.stop = r.offset + r.piece.size := by
    intro r t ht
    obtain ⟨-, hspan⟩ := PlacedPiece.token?_eq_some_iff.mp ht
    rw [← hspan]
    exact ⟨rfl, rfl⟩
  refine List.pairwise_append.mpr ⟨?_, List.pairwise_singleton _ _, ?_⟩
  · rw [List.pairwise_filterMap]
    refine htiles.pairwise.imp ?_
    intro r r' hlt t ht u hu
    obtain ⟨hstart, hstop⟩ := hspan ht
    obtain ⟨hstart', hstop'⟩ := hspan hu
    unfold InOrder
    omega
  · intro t ht u hu
    obtain ⟨r, hr, hrt⟩ := List.mem_filterMap.mp ht
    obtain ⟨hstart, hstop⟩ := hspan hrt
    have hle := htiles.le_stop.2 r hr
    rw [List.mem_singleton.mp hu]
    show t.span.start ≤ (source.length : Int) ∧ t.span.stop ≤ (source.length : Int)
    omega

/-- Of two tokens, the one with the lower number comes first. -/
theorem inOrder_of_le {ts : List Token} (hts : ts.Pairwise InOrder) {i j : Nat} {t u : Token}
    (ht : ts[i]? = some t) (hu : ts[j]? = some u) (hij : i ≤ j) : InOrder t u := by
  obtain ⟨hi, rfl⟩ := List.getElem?_eq_some_iff.mp ht
  obtain ⟨hj, rfl⟩ := List.getElem?_eq_some_iff.mp hu
  by_cases heq : i = j
  · subst heq
    exact ⟨Int.le_refl _, Int.le_refl _⟩
  · exact List.pairwise_iff_getElem.mp hts i j hi hj (by omega)

/-! ## Spans between tokens -/

/-- The span runs from the start of the token with the number `i` to the end of
the one with the number `j`. -/
def Runs (ts : List Token) (i j : Nat) (s : Span) : Prop :=
  ∃ t u, ts[i]? = some t ∧ ts[j]? = some u ∧ s = ⟨t.span.start, u.span.stop⟩

theorem Runs.cover {ts : List Token} (hts : ts.Pairwise InOrder) {i j i' j' : Nat} {s s' : Span}
    (h : Runs ts i j s) (h' : Runs ts i' j' s') : Runs ts (min i i') (max j j') (s.cover s') := by
  obtain ⟨t, u, ht, hu, rfl⟩ := h
  obtain ⟨t', u', ht', hu', rfl⟩ := h'
  obtain ⟨first, hfirst, hstart⟩ : ∃ first, ts[min i i']? = some first ∧ first.span.start =
      if t.span.start ≤ t'.span.start then t.span.start else t'.span.start := by
    rcases Nat.le_total i i' with hle | hle
    · have hstart := (inOrder_of_le hts ht ht' hle).1
      exact ⟨t, by rwa [Nat.min_eq_left hle], by rw [if_pos hstart]⟩
    · have hstart := (inOrder_of_le hts ht' ht hle).1
      refine ⟨t', by rwa [Nat.min_eq_right hle], ?_⟩
      split <;> omega
  obtain ⟨last, hlast, hstop⟩ : ∃ last, ts[max j j']? = some last ∧ last.span.stop =
      if u.span.stop ≤ u'.span.stop then u'.span.stop else u.span.stop := by
    rcases Nat.le_total j j' with hle | hle
    · have hstop := (inOrder_of_le hts hu hu' hle).2
      exact ⟨u', by rwa [Nat.max_eq_right hle], by rw [if_pos hstop]⟩
    · have hstop := (inOrder_of_le hts hu' hu hle).2
      refine ⟨u, by rwa [Nat.max_eq_left hle], ?_⟩
      split <;> omega
  refine ⟨first, last, hfirst, hlast, ?_⟩
  rw [hstart, hstop]
  rfl

/-- The spans run between tokens with the same numbers. -/
def SameTokens (source source' : Bytes) (s s' : Span) : Prop :=
  ∃ i j, Runs (scan source).tokens i j s ∧ Runs (scan source').tokens i j s'

theorem sameTokens_keptByCover (source source' : Bytes) :
    KeptByCover (SameTokens source source') := by
  rintro s s' t t' ⟨i, j, hs, hs'⟩ ⟨k, l, ht, ht'⟩
  refine ⟨min i k, max j l, ?_, ?_⟩
  · exact hs.cover (scan_pairwise source) ht
  · exact hs'.cover (scan_pairwise source') ht'

/-- Tokens of the same kinds and texts are alike, number by number. -/
theorem tokensAlike_of_map_eq {source source' : Bytes}
    (h : (scan source).tokens.map (fun t => (t.kind, t.text source)) =
      (scan source').tokens.map fun t => (t.kind, t.text source')) :
    TokensAlike (SameTokens source source') source source' (scan source).tokens
      (scan source').tokens := by
  have hlength : (scan source).tokens.length = (scan source').tokens.length := by
    simpa using congrArg List.length h
  refine List.forall₂_iff_get.mpr ⟨hlength, fun i hi hi' => ?_⟩
  have hget := congrArg (fun l => l[i]?) h
  simp only [List.getElem?_map, List.getElem?_eq_getElem hi, List.getElem?_eq_getElem hi',
    Option.map_some, Option.some.injEq, Prod.mk.injEq] at hget
  refine ⟨hget.1, hget.2, i, i, ?_, ?_⟩
  · exact ⟨_, _, List.getElem?_eq_getElem hi, List.getElem?_eq_getElem hi, rfl⟩
  · exact ⟨_, _, List.getElem?_eq_getElem hi', List.getElem?_eq_getElem hi', rfl⟩

/-- Two ways of writing the same lexemes are scanned into them without a fault.
They compile to the same program, or fail with the same report between the same
tokens, whatever the limits are. -/
theorem compile_layout {xs : List Lexeme} {source source' : Bytes} (h : IsLayout xs source)
    (h' : IsLayout xs source') (limits : Limits) :
    ScansTo source xs ∧ ScansTo source' xs ∧
      Agree (ReportedAlike (SameTokens source source') Failure.diagnostic source source')
        Program.Alike (compile source limits) (compile source' limits) := by
  have hscans := h.scansTo
  have hscans' := h'.scansTo
  have htokens := tokensAlike_of_map_eq (hscans.tokens.trans hscans'.tokens.symm)
  exact ⟨hscans, hscans', compile_alike (sameTokens_keptByCover source source') htokens limits⟩

/-- The sum `1 + true` in one line, and over several lines with a comment. -/
theorem compile_layout_mismatch :
    let source := utf8 "1 + true"
    let source' := utf8 "\n1 // one\n+\ttrue "
    (∃ xs, IsLayout xs source ∧ IsLayout xs source') ∧
      Agree (ReportedAlike (SameTokens source source') Failure.diagnostic source source')
        Program.Alike (compile source {}) (compile source' {}) := by
  intro source source'
  let one : Lexeme := ⟨.integer, [0x31], by show IsNumeral _; decide⟩
  let plus : Lexeme := ⟨.mark .plus, [0x2b], rfl⟩
  let truth : Lexeme := ⟨.word .true, utf8 "true", rfl⟩
  have hblank : ∀ {b : UInt8}, Scan.isBlank b = true → IsSeparator [b] :=
    fun hb => ⟨.blank hb .nil, startsBlank_cons.mpr hb⟩
  have h : IsLayout [one, plus, truth] source := by
    have hsource : source = [] ++ one.text ++
        ([0x20] ++ plus.text ++ ([0x20] ++ truth.text ++ [])) := by decide +kernel
    rw [hsource]
    exact .written (.inl rfl) (.next (hblank rfl) (.next (hblank rfl) (.last (.inl rfl))))
  have h' : IsLayout [one, plus, truth] source' := by
    have hsource : source' = [0x0a] ++ one.text ++
        (0x20 :: 0x2f :: 0x2f :: (utf8 " one" ++ [0x0a]) ++ plus.text ++
          ([0x09] ++ truth.text ++ [0x20])) := by decide +kernel
    have hcomment : IsSeparator (0x20 :: 0x2f :: 0x2f :: (utf8 " one" ++ [0x0a])) :=
      ⟨.blank rfl (.comment (by decide +kernel) .nil), startsBlank_cons.mpr rfl⟩
    rw [hsource]
    refine .written (.inr (hblank rfl)) (.next hcomment (.next (hblank rfl) ?_))
    exact .last (.inr (hblank rfl))
  exact ⟨⟨_, h, h'⟩, (compile_layout h h' {}).2.2⟩

end Abacus
