import Abacus.Proofs.Scan.Continued

/-!
# Lexemes written with separators

`IsLayout xs source` says that a text is the lexemes `xs`, one after another, with
a separator between any two of them: a blank, and then blanks and comments as one
likes.  Such a text is scanned into these lexemes without a fault (`IsLayout.scansTo`),
whatever the separators are: no lexeme grows into the blank behind it, and the
scanner passes over gaps (`IsGap.filterMap_piecesFrom`).
-/

namespace Abacus

/-- A text with the kind of its tokens. -/
structure Lexeme where
  kind : TokenKind
  text : Bytes
  isLexeme : IsLexeme kind text

/-! ## Layouts -/

/-- Blanks and comments, each comment with the end of its line. -/
inductive IsGap : Bytes → Prop where
  | nil : IsGap []
  | blank {b : UInt8} {rest : Bytes} (hb : Scan.isBlank b = true) (h : IsGap rest) :
      IsGap (b :: rest)
  | comment {inside rest : Bytes} (hinside : Bytes.newline ∉ inside) (h : IsGap rest) :
      IsGap (0x2f :: 0x2f :: (inside ++ Bytes.newline :: rest))

structure IsSeparator (s : Bytes) : Prop where
  isGap : IsGap s
  startsBlank : StartsBlank s

/-- What may stand before the first lexeme and behind the last one. -/
def IsMargin (s : Bytes) : Prop :=
  s = [] ∨ IsSeparator s

/-- What stands behind a lexeme when the given ones follow. -/
inductive Follows : List Lexeme → Bytes → Prop where
  | last {s : Bytes} (h : IsMargin s) : Follows [] s
  | next {x : Lexeme} {xs : List Lexeme} {separator s : Bytes} (hseparator : IsSeparator separator)
      (h : Follows xs s) : Follows (x :: xs) (separator ++ x.text ++ s)

/-- The text is a way of writing the lexemes. -/
inductive IsLayout : List Lexeme → Bytes → Prop where
  | nothing {s : Bytes} (h : IsMargin s) : IsLayout [] s
  | written {x : Lexeme} {xs : List Lexeme} {margin s : Bytes} (hmargin : IsMargin margin)
      (h : Follows xs s) : IsLayout (x :: xs) (margin ++ x.text ++ s)

theorem IsMargin.isGap {s : Bytes} (h : IsMargin s) : IsGap s := by
  rcases h with rfl | h
  · exact .nil
  · exact h.isGap

theorem StartsBlank.isBlank_head {s : Bytes} (h : StartsBlank s) :
    ∀ b ∈ s.head?, Scan.isBlank b = true := by
  intro b hb
  obtain ⟨b', hb', hblank⟩ := h
  obtain rfl : b' = b := Option.mem_unique hb' hb
  exact isBlank_iff.mpr hblank

theorem Follows.isBlank_head {xs : List Lexeme} {s : Bytes} (h : Follows xs s) :
    ∀ b ∈ s.head?, Scan.isBlank b = true := by
  cases h with
  | last h =>
    rcases h with rfl | h
    · exact fun b hb => nomatch hb
    · exact h.startsBlank.isBlank_head
  | @next x xs separator s hseparator h =>
    have hblank := hseparator.startsBlank
    have hne : separator ≠ [] := by
      rintro rfl
      obtain ⟨b, hb, -⟩ := hblank
      cases hb
    rw [List.append_assoc]
    exact ((startsBlank_append hne).mpr hblank).isBlank_head

/-! ## Scanning a gap -/

/-- Whatever is kept of tokens or faults only, gaps are passed over. -/
theorem IsGap.filterMap_piecesFrom {gap : Bytes} (h : IsGap gap) {β : Type}
    {f : PlacedPiece → Option β}
    (hf : ∀ offset p, p.kind = .blank ∨ p.kind = .comment → f ⟨offset, p⟩ = none)
    (offset : Nat) (s : Bytes) :
    (piecesFrom offset 0 (gap ++ s)).filterMap f =
      (piecesFrom (offset + gap.length) 0 s).filterMap f := by
  have hblank : ∀ {b : UInt8} {rest : Bytes} (offset : Nat), Scan.isBlank b = true →
      (piecesFrom offset 0 (b :: rest)).filterMap f =
        (piecesFrom (offset + 1) 0 rest).filterMap f := by
    intro b rest offset hb
    rw [piecesFrom_of_pieceOf (.blank (startsBlank_cons.mpr hb)), List.filterMap_cons,
      hf _ _ (.inl rfl)]
    rfl
  induction h generalizing offset with
  | nil => rfl
  | @blank b rest hb h ih =>
    rw [List.cons_append, hblank offset hb, ih, List.length_cons]
    congr 2
    omega
  | @comment inside rest hinside h ih =>
    have hpiece : PieceOf (0x2f :: 0x2f :: (inside ++ Bytes.newline :: (rest ++ s)))
        ⟨.comment, inside.length + 2⟩ :=
      .comment rfl hinside fun b hb => (Option.some.inj hb).symm
    have hdrop : (0x2f :: 0x2f :: (inside ++ Bytes.newline :: (rest ++ s))).drop
        (inside.length + 2) = Bytes.newline :: (rest ++ s) := by simp
    have hnewline : Scan.isBlank Bytes.newline = true := by decide
    simp only [List.cons_append, List.append_assoc]
    rw [piecesFrom_of_pieceOf hpiece, List.filterMap_cons, hf _ _ (.inr rfl)]
    simp only [hdrop]
    rw [hblank _ hnewline, ih]
    congr 2
    simp only [List.length_cons, List.length_append]
    omega

/-! ## Scanning a lexeme -/

section Lexeme

variable {k : TokenKind} {text s : Bytes}

theorem IsLexeme.not_startsBlank (h : IsLexeme k text) : ¬StartsBlank text := by
  intro hblank
  cases text with
  | nil => exact h.ne_nil rfl
  | cons b rest =>
    have hb := startsBlank_cons.mp hblank
    obtain rfl := h.eq_string_of_isBlank List.mem_cons_self hb
    obtain ⟨inside, -, heq⟩ := h
    rw [(List.cons.inj heq).1] at hb
    contradiction

/-- No lexeme opens a comment. -/
theorem IsLexeme.not_startsComment (h : IsLexeme k text) : ¬StartsComment text := by
  rintro ⟨rest, rfl⟩
  obtain ⟨m, rfl⟩ := Scan.mark_kind h.family
  have hall : ∀ m ∈ Mark.all, ¬[0x2f, 0x2f] <+: m.text := by decide +kernel
  exact hall m m.mem_all ⟨rest, h⟩

theorem IsLexeme.longest (h : IsLexeme k text) : LongestLexeme text k text :=
  ⟨List.prefix_refl text, h, fun _ _ hq _ => hq.length_le⟩

/-- In front of a blank or the end, a lexeme is one piece. -/
theorem IsLexeme.pieceOf (h : IsLexeme k text) (hs : ∀ b ∈ s.head?, Scan.isBlank b = true) :
    PieceOf (text ++ s) ⟨.token k, text.length⟩ := by
  refine .token ?_ ?_ (h.longest.append hs)
  · rw [startsBlank_append h.ne_nil]
    exact h.not_startsBlank
  · exact fun hcomment => h.not_startsComment (hcomment.of_append h.ne_nil hs)

theorem IsLexeme.piecesFrom (h : IsLexeme k text) (hs : ∀ b ∈ s.head?, Scan.isBlank b = true)
    (offset : Nat) :
    piecesFrom offset 0 (text ++ s) =
      ⟨offset, ⟨.token k, text.length⟩⟩ :: piecesFrom (offset + text.length) 0 s := by
  rw [piecesFrom_of_pieceOf (h.pieceOf hs)]
  simp

end Lexeme

/-! ## Scanning a layout -/

/-- Behind `before`, the text `s` is scanned into the lexemes, without a fault. -/
structure ScansFrom (before s : Bytes) (xs : List Lexeme) : Prop where
  tokens : ((piecesFrom before.length 0 s).filterMap PlacedPiece.token?).map
    (fun t => (t.kind, t.text (before ++ s))) = xs.map fun x => (x.kind, x.text)
  faults : (piecesFrom before.length 0 s).filterMap PlacedPiece.fault? = []

theorem token?_eq_none (offset : Nat) (p : Piece) (h : p.kind = .blank ∨ p.kind = .comment) :
    (PlacedPiece.mk offset p).token? = none := by
  rcases h with h | h <;> simp [PlacedPiece.token?, h]

theorem fault?_eq_none (offset : Nat) (p : Piece) (h : p.kind = .blank ∨ p.kind = .comment) :
    (PlacedPiece.mk offset p).fault? = none := by
  rcases h with h | h <;> simp [PlacedPiece.fault?, h]

theorem scansFrom_gap {gap : Bytes} (h : IsGap gap) (before : Bytes) : ScansFrom before gap [] := by
  have htokens := h.filterMap_piecesFrom token?_eq_none before.length []
  have hfaults := h.filterMap_piecesFrom fault?_eq_none before.length []
  rw [List.append_nil] at htokens hfaults
  refine ⟨?_, hfaults⟩
  rw [htokens]
  rfl

/-- The text of a token that stands at the offset `i`. -/
theorem text_of_drop (k : TokenKind) {source text rest : Bytes} {i : Nat}
    (h : source.drop i = text ++ rest) : Token.text ⟨k, ⟨i, i + text.length⟩⟩ source = text := by
  show (source.drop i).take (i + text.length - i) = text
  rw [h, Nat.add_sub_cancel_left, List.take_left]

/-- The text of the token that a lexeme gives. -/
theorem text_token (k : TokenKind) (front text s : Bytes) :
    Token.text ⟨k, ⟨front.length, front.length + text.length⟩⟩ (front ++ text ++ s) = text := by
  apply text_of_drop
  rw [List.append_assoc, List.drop_left]

/-- A lexeme behind a gap is scanned before what follows it. -/
theorem ScansFrom.cons {before gap s : Bytes} {xs : List Lexeme} (hgap : IsGap gap) (x : Lexeme)
    (hs : ∀ b ∈ s.head?, Scan.isBlank b = true) (h : ScansFrom (before ++ gap ++ x.text) s xs) :
    ScansFrom before (gap ++ x.text ++ s) (x :: xs) := by
  have hpieces := x.isLexeme.piecesFrom hs (before ++ gap).length
  have hwhole : before ++ (gap ++ x.text ++ s) = before ++ gap ++ x.text ++ s := by
    simp only [List.append_assoc]
  have htext := text_token x.kind (before ++ gap) x.text s
  obtain ⟨htokens, hfaults⟩ := h
  rw [List.length_append] at htokens hfaults
  constructor
  · rw [hwhole, List.append_assoc gap, hgap.filterMap_piecesFrom token?_eq_none,
      ← List.length_append, hpieces, List.filterMap_cons]
    simp only [PlacedPiece.token?, PlacedPiece.span, List.map_cons, htext]
    rw [htokens]
  · rw [List.append_assoc gap, hgap.filterMap_piecesFrom fault?_eq_none, ← List.length_append,
      hpieces]
    exact hfaults

theorem Follows.scans {xs : List Lexeme} {s : Bytes} (h : Follows xs s) (before : Bytes) :
    ScansFrom before s xs := by
  induction h generalizing before with
  | last h => exact scansFrom_gap h.isGap before
  | next hseparator h ih => exact .cons hseparator.isGap _ h.isBlank_head (ih _)

/-- The scan of a text gives the lexemes, the end behind them, and no fault. -/
structure ScansTo (source : Bytes) (xs : List Lexeme) : Prop where
  tokens : (scan source).tokens.map (fun t => (t.kind, t.text source)) =
    xs.map (fun x => (x.kind, x.text)) ++ [(.endOfInput, [])]
  faults : (scan source).faults = []

/-- Every way of writing some lexemes is scanned into them. -/
theorem IsLayout.scansFrom {xs : List Lexeme} {source : Bytes} (h : IsLayout xs source) :
    ScansFrom [] source xs := by
  cases h with
  | nothing h => exact scansFrom_gap h.isGap []
  | written hmargin h => exact .cons hmargin.isGap _ h.isBlank_head (h.scans _)

theorem text_endToken (source : Bytes) : (endToken source).text source = [] := by
  show (source.drop source.length).take (source.length - source.length) = []
  rw [Nat.sub_self, List.take_zero]

theorem IsLayout.scansTo {xs : List Lexeme} {source : Bytes} (h : IsLayout xs source) :
    ScansTo source xs := by
  refine ⟨?_, h.scansFrom.faults⟩
  rw [scan, List.map_append, List.map_singleton, text_endToken]
  exact congrArg (· ++ _) h.scansFrom.tokens

end Abacus
