import Abacus.Proofs.Scan.Munch

/-!
# Scanning a text with more behind it

What follows a text does not change its pieces when a blank stands between the
two.  No lexeme but a string holds a blank, so a lexeme cannot grow across it
(`LongestLexeme.append`); a line end also closes a comment (`PieceOf.append`).
Only an unclosed string looks at all that follows, and it gives no token.  So the
tokens of a text are the first tokens of the text with more lines behind it
(`tokens_isPrefix`).
-/

namespace Abacus

section Continued

variable {s z : Bytes}

/-- A lexeme that goes on behind the text holds a blank, so it is a string. -/
theorem isPrefix_or_eq_string {k : TokenKind} {q : Bytes} (h : IsLexeme k q) (hq : q <+: s ++ z)
    (hz : ∀ b ∈ z.head?, Scan.isBlank b = true) : q <+: s ∨ k = .string ∧ s <+: q := by
  by_cases hshort : q.length ≤ s.length
  · exact .inl (List.prefix_of_prefix_length_le hq (List.prefix_append s z) hshort)
  · have hlong : s <+: q :=
      List.prefix_of_prefix_length_le (List.prefix_append s z) hq (by omega)
    refine .inr ⟨?_, hlong⟩
    obtain ⟨tail, rfl⟩ := hlong
    obtain ⟨rest, hrest⟩ := (List.prefix_append_right_inj s).mp hq
    cases tail with
    | nil => simp at hshort
    | cons b tail =>
      have hb : Scan.isBlank b = true := hz b (by rw [← hrest]; rfl)
      exact h.eq_string_of_isBlank (by simp) hb

/-- A longest lexeme stays one when a blank, or nothing, follows the text. -/
theorem LongestLexeme.append {k : TokenKind} {text : Bytes} (h : LongestLexeme s k text)
    (hz : ∀ b ∈ z.head?, Scan.isBlank b = true) : LongestLexeme (s ++ z) k text := by
  have hfront : text <+: s ++ z := h.isPrefix.trans (List.prefix_append s z)
  by_cases hk : k = .string
  · subst hk
    obtain ⟨inside, hinside, rfl⟩ := h.lexeme
    obtain ⟨after, hafter⟩ := hfront
    rw [← hafter]
    simpa using (Scan.string_longest hinside).2
  · refine ⟨hfront, h.lexeme, ?_⟩
    intro k' q hq hlexeme
    rcases isPrefix_or_eq_string hlexeme hq hz with hq | ⟨rfl, hlong⟩
    · exact h.longest k' q hq hlexeme
    · -- The text starts with a quote, and then `text` is a string as well.
      exfalso
      cases s with
      | nil => exact h.lexeme.ne_nil (List.prefix_nil.mp h.isPrefix)
      | cons c s =>
        obtain ⟨tail, rfl⟩ := hlong
        have hquote : Family.ofByte c = .quote :=
          Option.some.inj (family_of_isPrefix hlexeme (List.prefix_refl _)).symm
        have hfamily := family_of_isPrefix h.lexeme h.isPrefix
        rw [hquote] at hfamily
        exact hk (Scan.quote_kind hfamily)

theorem startsBlank_append (hs : s ≠ []) : StartsBlank (s ++ z) ↔ StartsBlank s := by
  cases s with
  | nil => exact absurd rfl hs
  | cons b s => rw [List.cons_append, startsBlank_cons, startsBlank_cons]

theorem StartsComment.of_append (hs : s ≠ []) (hz : ∀ b ∈ z.head?, Scan.isBlank b = true)
    (h : StartsComment (s ++ z)) : StartsComment s := by
  cases s with
  | nil => exact absurd rfl hs
  | cons b s =>
    rw [List.cons_append, startsComment_cons] at h
    rw [startsComment_cons]
    obtain ⟨rfl, hnext⟩ := h
    cases s with
    | nil =>
      have hblank := hz 0x2f hnext
      contradiction
    | cons c s => exact ⟨rfl, hnext⟩

/-- Where nothing starts, nothing starts with more behind it. -/
theorem StartsNothing.append {b : UInt8} (h : StartsNothing (b :: s)) (hb : b ≠ 0x22)
    (hz : ∀ b ∈ z.head?, Scan.isBlank b = true) : StartsNothing (b :: s ++ z) := by
  refine ⟨?_, ?_, ?_⟩
  · intro k q hq hlexeme
    rcases isPrefix_or_eq_string hlexeme hq hz with hq | ⟨rfl, tail, rfl⟩
    · exact h.lexeme k q hq hlexeme
    · obtain ⟨inside, -, heq⟩ := hlexeme
      exact hb (List.cons.inj heq).1
  · rw [startsBlank_append (List.cons_ne_nil b s)]
    exact h.blank
  · intro hcomment
    exact h.comment (hcomment.of_append (List.cons_ne_nil b s) hz)

end Continued

/-! ## More lines -/

section Lines

variable {s : Bytes} {p : Piece} (more : Bytes)

theorem isBlank_newline : ∀ b ∈ (Bytes.newline :: more).head?, Scan.isBlank b = true := by
  intro b hb
  obtain rfl : Bytes.newline = b := Option.some.inj hb
  decide

/-- A line end behind a text changes no piece at its head but an unclosed string. -/
theorem PieceOf.append (h : PieceOf s p) (hp : p.kind ≠ .fault .unterminated) :
    PieceOf (s ++ Bytes.newline :: more) p := by
  have hne : s ≠ [] := by
    rintro rfl
    have hpos := h.size_pos
    have hle := h.size_le
    simp at hle
    omega
  cases h with
  | blank hblank => exact .blank ((startsBlank_append hne).mpr hblank)
  | @comment inside rest heq hinside hrest =>
    subst heq
    refine @PieceOf.comment _ inside (rest ++ Bytes.newline :: more) (by simp) hinside ?_
    intro b hb
    cases rest with
    | nil => exact (Option.some.inj hb).symm
    | cons c rest => exact hrest b hb
  | token hblank hcomment htext =>
    refine .token ?_ ?_ (htext.append (isBlank_newline more))
    · rwa [startsBlank_append hne]
    · exact fun hstarts => hcomment (hstarts.of_append hne (isBlank_newline more))
  | @unexpected b rest heq hb hnothing =>
    subst heq
    have hhead := Glyph.head_append b rest (a := Bytes.newline) (by decide) more
    rw [← hhead]
    exact .unexpected rfl hb (hnothing.append hb (isBlank_newline more))
  | unterminated => exact absurd rfl hp

/-- The tokens of a text come first when more lines follow it. -/
theorem tokens_isPrefix_from (offset : Nat) (s : Bytes) :
    (piecesFrom offset 0 s).filterMap PlacedPiece.token? <+:
      (piecesFrom offset 0 (s ++ Bytes.newline :: more)).filterMap PlacedPiece.token? := by
  induction offset, s using Scan.induction with
  | nil offset => exact List.nil_prefix
  | cut offset s p hp ih =>
    by_cases hopen : p.kind = .fault .unterminated
    · -- An unclosed string takes the whole text and gives no token.
      have hnone : (PlacedPiece.mk offset p).token? = none := by
        simp [PlacedPiece.token?, hopen]
      have hend : s.drop p.size = [] := by
        cases hp with
        | unterminated heq =>
          rw [heq]
          simp
        | _ => cases hopen
      rw [piecesFrom_of_pieceOf hp, hend, List.filterMap_cons, hnone]
      exact List.nil_prefix
    · have hle := hp.size_le
      rw [piecesFrom_of_pieceOf hp, piecesFrom_of_pieceOf (hp.append more hopen),
        List.drop_append_of_le_length hle, List.filterMap_cons, List.filterMap_cons]
      cases (PlacedPiece.mk offset p).token? with
      | none => exact ih
      | some t => exact (List.prefix_cons_inj t).mpr ih

theorem tokens_isPrefix (source : Bytes) :
    (pieces source).filterMap PlacedPiece.token? <+:
      (pieces (source ++ Bytes.newline :: more)).filterMap PlacedPiece.token? :=
  tokens_isPrefix_from more 0 source

/-- A token of a text has the same text when more follows. -/
theorem text_append {source : Bytes} {t : Token}
    (ht : t ∈ (pieces source).filterMap PlacedPiece.token?) :
    t.text (source ++ more) = t.text source := by
  obtain ⟨r, hr, hrt⟩ := List.mem_filterMap.mp ht
  obtain ⟨-, hspan⟩ := PlacedPiece.token?_eq_some_iff.mp hrt
  have hpos := (pieceOf_of_mem hr).size_pos
  have hle := (pieceOf_of_mem hr).size_le
  rw [List.length_drop] at hle
  have hoffset : r.offset ≤ source.length := by omega
  have htext : ∀ source : Bytes, t.text source = r.text source := by
    intro source
    rw [Token.text, ← hspan]
    rfl
  rw [htext, htext, PlacedPiece.text_eq, PlacedPiece.text_eq,
    List.drop_append_of_le_length hoffset,
    List.take_append_of_le_length (by rw [List.length_drop]; omega)]

end Lines

end Abacus
