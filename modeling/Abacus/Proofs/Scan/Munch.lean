import Abacus.Program
import Abacus.Proofs.Scan.Longest

/-!
# Scanning takes the longest lexeme everywhere

`pieceOf_piece` says what the scanner takes off the head of a text.  Here this is
carried through a whole source text: the pieces follow each other without a gap
(`tiles_piecesFrom`), and each of them obeys the rule at its own offset
(`pieceOf_of_mem`).  Proofs about all pieces of a text go by `Scan.induction`,
which cuts one piece off at a time.

`MaximalMunch` puts together what a scan of a source text must be, and
`scan_maximalMunch` says that `scan` is that.
-/

namespace Abacus

/-! ## One piece after another -/

namespace PieceOf

variable {s : Bytes} {p : Piece}

theorem size_pos (h : PieceOf s p) : 0 < p.size := by
  cases h with
  | blank => exact Nat.one_pos
  | comment => exact Nat.succ_pos _
  | token _ _ htext => exact List.length_pos_iff.mpr htext.lexeme.ne_nil
  | unexpected => exact Glyph.size_pos _
  | unterminated => exact Nat.succ_pos _

theorem size_le (h : PieceOf s p) : p.size ≤ s.length := by
  cases h with
  | blank hblank =>
    obtain ⟨b, hb, -⟩ := hblank
    cases s with
    | nil => cases hb
    | cons => simp
  | comment heq =>
    rw [heq]
    simp
  | token _ _ htext => exact htext.isPrefix.length_le
  | unexpected heq =>
    rw [heq, Glyph.size_eq_length]
    exact (Glyph.bytes_head_isPrefix _ _).length_le
  | unterminated heq =>
    rw [heq]
    simp

end PieceOf

theorem piecesFrom_skip {offset skip : Nat} {s : Bytes} (h : skip ≤ s.length) :
    piecesFrom offset skip s = piecesFrom (offset + skip) 0 (s.drop skip) := by
  induction skip generalizing offset s with
  | zero => rfl
  | succ skip ih =>
    cases s with
    | nil => simp at h
    | cons b s =>
      have hskip : skip ≤ s.length := by simpa using h
      rw [piecesFrom, ih hskip, List.drop_succ_cons]
      congr 1
      omega

/-- A text that starts with a piece is cut behind it. -/
theorem piecesFrom_of_pieceOf {s : Bytes} {p : Piece} (h : PieceOf s p) (offset : Nat) :
    piecesFrom offset 0 s = ⟨offset, p⟩ :: piecesFrom (offset + p.size) 0 (s.drop p.size) := by
  have hpos := h.size_pos
  have hle := h.size_le
  cases s with
  | nil => simp at hle; omega
  | cons b s =>
    have hpiece : Scan.piece b s = p := (pieceOf_piece b s).unique h
    have hskip : p.size - 1 ≤ s.length := by
      simp at hle
      omega
    obtain ⟨n, hn⟩ : ∃ n, p.size = n + 1 := ⟨p.size - 1, by omega⟩
    rw [piecesFrom, hpiece, piecesFrom_skip hskip, hn, List.drop_succ_cons]
    congr 2
    omega

/-- Induction over the pieces of a text, from front to back. -/
theorem Scan.induction {motive : Nat → Bytes → Prop} (nil : ∀ offset, motive offset [])
    (cut : ∀ offset s p, PieceOf s p → motive (offset + p.size) (s.drop p.size) → motive offset s)
    (offset : Nat) (s : Bytes) : motive offset s := by
  induction hlength : s.length using Nat.strongRecOn generalizing offset s with
  | ind n ih =>
    cases s with
    | nil => exact nil offset
    | cons b s =>
      have hpiece := pieceOf_piece b s
      have hpos := hpiece.size_pos
      have hle := hpiece.size_le
      refine cut offset (b :: s) _ hpiece (ih _ ?_ _ _ rfl)
      rw [List.length_drop]
      omega

/-- The pieces follow each other from one offset to another, and none is empty. -/
def Tiles : Nat → List PlacedPiece → Nat → Prop
  | start, [], stop => start = stop
  | start, p :: ps, stop =>
    p.offset = start ∧ 0 < p.piece.size ∧ Tiles (start + p.piece.size) ps stop

theorem tiles_piecesFrom (offset : Nat) (s : Bytes) :
    Tiles offset (piecesFrom offset 0 s) (offset + s.length) := by
  induction offset, s using Scan.induction with
  | nil offset => rfl
  | cut offset s p hp ih =>
    have hle := hp.size_le
    rw [piecesFrom_of_pieceOf hp]
    refine ⟨rfl, hp.size_pos, ?_⟩
    rw [List.length_drop] at ih
    rwa [show offset + s.length = offset + p.size + (s.length - p.size) by omega]

theorem tiles_pieces (source : Bytes) : Tiles 0 (pieces source) source.length := by
  have h := tiles_piecesFrom 0 source
  rwa [Nat.zero_add] at h

/-- Every piece obeys the rule at its offset. -/
theorem pieceOf_of_mem_piecesFrom {offset : Nat} {s : Bytes} {r : PlacedPiece}
    (hr : r ∈ piecesFrom offset 0 s) :
    offset ≤ r.offset ∧ PieceOf (s.drop (r.offset - offset)) r.piece := by
  induction offset, s using Scan.induction with
  | nil offset => cases hr
  | cut offset s p hp ih =>
    rw [piecesFrom_of_pieceOf hp] at hr
    rcases List.mem_cons.mp hr with rfl | hr
    · refine ⟨Nat.le_refl _, ?_⟩
      simpa using hp
    · obtain ⟨hoffset, hpiece⟩ := ih hr
      rw [List.drop_drop] at hpiece
      have hsplit : p.size + (r.offset - (offset + p.size)) = r.offset - offset := by omega
      rw [hsplit] at hpiece
      exact ⟨by omega, hpiece⟩

theorem pieceOf_of_mem {source : Bytes} {r : PlacedPiece} (hr : r ∈ pieces source) :
    PieceOf (source.drop r.offset) r.piece := by
  simpa using (pieceOf_of_mem_piecesFrom hr).2

theorem Tiles.le_offset {start stop : Nat} {ps : List PlacedPiece} (h : Tiles start ps stop)
    {p : PlacedPiece} (hp : p ∈ ps) : start ≤ p.offset := by
  induction ps generalizing start with
  | nil => cases hp
  | cons q ps ih =>
    obtain ⟨hstart, -, hrest⟩ := h
    rcases List.mem_cons.mp hp with rfl | hp
    · omega
    · have hle := ih hrest hp
      omega

theorem Tiles.le_stop {start stop : Nat} {ps : List PlacedPiece} (h : Tiles start ps stop) :
    start ≤ stop ∧ ∀ p ∈ ps, p.offset + p.piece.size ≤ stop := by
  induction ps generalizing start with
  | nil =>
    obtain rfl : start = stop := h
    exact ⟨Nat.le_refl _, fun p hp => nomatch hp⟩
  | cons q ps ih =>
    obtain ⟨hstart, -, hrest⟩ := h
    obtain ⟨hle, hall⟩ := ih hrest
    refine ⟨by omega, fun p hp => ?_⟩
    rcases List.mem_cons.mp hp with rfl | hp
    · omega
    · exact hall p hp

theorem Tiles.pairwise {start stop : Nat} {ps : List PlacedPiece} (h : Tiles start ps stop) :
    ps.Pairwise fun p q => p.offset < q.offset ∧ p.offset + p.piece.size ≤ q.offset := by
  induction ps generalizing start with
  | nil => exact .nil
  | cons p ps ih =>
    obtain ⟨hstart, hpos, hrest⟩ := h
    refine .cons ?_ (ih hrest)
    intro q hq
    have hle := hrest.le_offset hq
    omega

/-! ## Tokens and faults of pieces -/

section Pieces

variable {source : Bytes} {r : PlacedPiece}

/-- The bytes of a piece. -/
def PlacedPiece.text (source : Bytes) (r : PlacedPiece) : Bytes :=
  r.span.slice source

theorem PlacedPiece.text_eq : r.text source = (source.drop r.offset).take r.piece.size := by
  show source.slice (r.offset : Int).toNat (r.offset + r.piece.size : Int).toNat = _
  rw [Bytes.slice]
  congr 1
  omega

theorem PlacedPiece.token?_eq_some_iff {t : Token} :
    r.token? = some t ↔ r.piece.kind = .token t.kind ∧ r.span = t.span := by
  unfold PlacedPiece.token?
  cases hkind : r.piece.kind with
  | token k =>
    obtain ⟨kind, span⟩ := t
    simp
  | _ => simp

theorem PlacedPiece.fault?_start {f : PlacedFault} (h : r.fault? = some f) :
    f.span.start = r.offset := by
  unfold PlacedPiece.fault? at h
  split at h <;> cases h <;> rfl

theorem PieceOf.text_token {k : TokenKind} (h : PieceOf (source.drop r.offset) r.piece)
    (hkind : r.piece.kind = .token k) :
    LongestLexeme (source.drop r.offset) k (r.text source) ∧
      ¬StartsComment (source.drop r.offset) := by
  rw [PlacedPiece.text_eq]
  generalize r.piece = p at h hkind
  cases h with
  | token hblank hcomment htext =>
    cases hkind
    refine ⟨?_, hcomment⟩
    rwa [← List.prefix_iff_eq_take.mp htext.isPrefix]
  | _ => cases hkind

/-- A token of the source is the longest lexeme where it starts. -/
theorem longest_of_mem_tokens {t : Token}
    (ht : t ∈ (pieces source).filterMap PlacedPiece.token?) :
    LongestLexeme (source.drop t.span.start.toNat) t.kind (t.text source) ∧
      ¬StartsComment (source.drop t.span.start.toNat) := by
  obtain ⟨r, hr, hrt⟩ := List.mem_filterMap.mp ht
  obtain ⟨hkind, hspan⟩ := PlacedPiece.token?_eq_some_iff.mp hrt
  have hstart : t.span.start.toNat = r.offset := by
    rw [← hspan]
    exact Int.toNat_natCast r.offset
  have htext : t.text source = r.text source := by
    rw [Token.text, ← hspan]
    rfl
  rw [hstart, htext]
  exact (pieceOf_of_mem hr).text_token hkind

theorem kind_of_mem_tokens {t : Token}
    (ht : t ∈ (pieces source).filterMap PlacedPiece.token?) : t.kind ≠ .endOfInput := by
  intro hkind
  have hlexeme := (longest_of_mem_tokens ht).1.lexeme
  rw [hkind] at hlexeme
  exact hlexeme

/-- The end comes behind all other tokens. -/
theorem takeWhile_scan (source : Bytes) :
    (scan source).tokens.takeWhile (fun t => t.kind ≠ .endOfInput) =
      (pieces source).filterMap PlacedPiece.token? := by
  have hkinds : ∀ t ∈ (pieces source).filterMap PlacedPiece.token?,
      decide (t.kind ≠ .endOfInput) = true := by
    intro t ht
    exact decide_eq_true (kind_of_mem_tokens ht)
  rw [scan, List.takeWhile_append_of_pos hkinds]
  exact List.append_nil _

/-- A piece is a fault exactly where nothing starts. -/
theorem PieceOf.fault?_isSome_iff (h : PieceOf (source.drop r.offset) r.piece) :
    r.fault?.isSome = true ↔ StartsNothing (source.drop r.offset) := by
  unfold PlacedPiece.fault?
  generalize r.piece = p at h
  cases h with
  | blank hblank => simpa using fun h => absurd hblank h.blank
  | comment heq =>
    have hcomment : StartsComment (source.drop r.offset) := by
      rw [heq]
      exact ⟨_, rfl⟩
    simpa using fun h => absurd hcomment h.comment
  | token _ _ htext => simpa using htext.not_startsNothing
  | unexpected _ _ hnothing => simpa using hnothing
  | unterminated _ _ hnothing => simpa using hnothing

end Pieces

/-! ## Whole texts -/

/-- A piece that gives no token: a blank, a comment up to the end of its line, the
character or stray byte of a fault, or all that follows an unclosed quote. -/
inductive IsSkipped (source : Bytes) (faults : List PlacedFault) (r : PlacedPiece) : Prop where
  | blank {b : UInt8} (htext : r.text source = [b])
      (hb : b = 0x20 ∨ b = 0x09 ∨ b = 0x0d ∨ b = 0x0a)
  | comment {inside : Bytes} (htext : r.text source = 0x2f :: 0x2f :: inside)
      (hinside : Bytes.newline ∉ inside)
      (hend : ∀ b ∈ (source.drop (r.offset + r.piece.size)).head?, b = Bytes.newline)
  | character {g : Glyph} (hfault : ⟨.unexpected g, r.span⟩ ∈ faults)
      (htext : r.text source = g.bytes)
  | unclosed {inside : Bytes} (hfault : ⟨.unterminated, ⟨r.offset, r.offset + 1⟩⟩ ∈ faults)
      (htext : r.text source = 0x22 :: inside) (hinside : 0x22 ∉ inside)
      (hend : r.offset + r.piece.size = source.length)

/-- What the scan of a source text must be, for the regions into which it cuts
the text. -/
structure MaximalMunch (source : Bytes) (regions : List PlacedPiece) (s : Scanned) : Prop where
  /-- The regions follow each other from the start of the text to its end. -/
  tiles : Tiles 0 regions source.length
  /-- The tokens are those of the regions, in order, and the end behind them. -/
  tokens : s.tokens = regions.filterMap PlacedPiece.token? ++
    [⟨.endOfInput, ⟨source.length, source.length⟩⟩]
  skipped : ∀ r ∈ regions, r.token? = none → IsSkipped source s.faults r
  /-- No token but the last is the end. -/
  proper : ∀ t ∈ regions.filterMap PlacedPiece.token?, t.kind ≠ .endOfInput
  /-- A token is not empty, it is a lexeme of its kind, and no longer prefix of what
  stands at its start is a lexeme of any kind or opens a comment. -/
  longest : ∀ t ∈ s.tokens, t.kind ≠ .endOfInput →
    t.text source ≠ [] ∧
      LongestLexeme (source.drop t.span.start.toNat) t.kind (t.text source) ∧
      ¬StartsComment (source.drop t.span.start.toNat)
  /-- Faults lie at the offsets that the scan reaches and where nothing starts. -/
  diagnosed : ∀ offset : Int, (∃ f ∈ s.faults, f.span.start = offset) ↔
    ∃ r ∈ regions, (r.offset : Int) = offset ∧ StartsNothing (source.drop r.offset)
  increasing : s.faults.Pairwise fun f g => f.span.start < g.span.start
  lexical : ∀ d ∈ s.diagnostics source, d.kind = .lex

theorem isSkipped_of_mem {source : Bytes} {r : PlacedPiece} (hr : r ∈ pieces source)
    (hnone : r.token? = none) : IsSkipped source (scan source).faults r := by
  have hfault : ∀ {f : PlacedFault}, r.fault? = some f → f ∈ (scan source).faults := by
    intro f hf
    exact List.mem_filterMap.mpr ⟨r, hr, hf⟩
  have htext : r.text source = (source.drop r.offset).take r.piece.size := r.text_eq
  have hpiece := pieceOf_of_mem hr
  obtain ⟨offset, p⟩ := r
  simp only at hpiece htext
  cases hpiece with
  | blank hblank =>
    obtain ⟨b, hb, hbytes⟩ := hblank
    refine .blank ?_ hbytes
    rw [htext]
    cases hs : source.drop offset with
    | nil =>
      rw [hs] at hb
      cases hb
    | cons c rest =>
      rw [hs] at hb
      obtain rfl : c = b := by simpa using hb
      rfl
  | @comment inside rest heq hinside hrest =>
    refine .comment ?_ hinside ?_
    · rw [htext, heq]
      simp
    · rw [← List.drop_drop, heq]
      simpa using hrest
  | token => cases hnone
  | @unexpected b rest heq =>
    refine .character (hfault rfl) ?_
    rw [htext, heq, Glyph.size_eq_length]
    exact (List.prefix_iff_eq_take.mp (Glyph.bytes_head_isPrefix b rest)).symm
  | @unterminated rest heq hrest =>
    refine .unclosed (hfault rfl) ?_ hrest ?_
    · rw [htext, heq]
      simp
    · have hlength : (source.drop offset).length = rest.length + 1 := by
        rw [heq, List.length_cons]
      rw [List.length_drop] at hlength
      simp only
      omega

/-- Scanning takes the longest lexeme everywhere, skips blanks and comments, and
reports what starts nothing. -/
theorem scan_maximalMunch (source : Bytes) : MaximalMunch source (pieces source) (scan source) := by
  have htiles := tiles_pieces source
  refine ⟨htiles, rfl, fun r hr hnone => isSkipped_of_mem hr hnone,
    fun t ht => kind_of_mem_tokens ht, ?_, ?_, ?_, ?_⟩
  · intro t ht hkind
    rcases List.mem_append.mp ht with ht | ht
    · obtain ⟨hlongest, hcomment⟩ := longest_of_mem_tokens ht
      exact ⟨hlongest.lexeme.ne_nil, hlongest, hcomment⟩
    · rw [List.mem_singleton.mp ht] at hkind
      exact absurd rfl hkind
  · intro offset
    constructor
    · rintro ⟨f, hf, rfl⟩
      obtain ⟨r, hr, hrf⟩ := List.mem_filterMap.mp hf
      refine ⟨r, hr, (PlacedPiece.fault?_start hrf).symm, ?_⟩
      exact (pieceOf_of_mem hr).fault?_isSome_iff.mp (by rw [hrf]; rfl)
    · rintro ⟨r, hr, rfl, hnothing⟩
      obtain ⟨f, hf⟩ := Option.isSome_iff_exists.mp
        ((pieceOf_of_mem hr).fault?_isSome_iff.mpr hnothing)
      exact ⟨f, List.mem_filterMap.mpr ⟨r, hr, hf⟩, PlacedPiece.fault?_start hf⟩
  · show ((pieces source).filterMap PlacedPiece.fault?).Pairwise _
    rw [List.pairwise_filterMap]
    refine htiles.pairwise.imp ?_
    intro r r' hlt f hf g hg
    rw [PlacedPiece.fault?_start hf, PlacedPiece.fault?_start hg]
    omega
  · intro d hd
    obtain ⟨f, -, rfl⟩ := List.mem_map.mp hd
    rfl

end Abacus
