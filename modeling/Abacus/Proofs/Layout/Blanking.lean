import Abacus.Proofs.Layout.Respan
import Abacus.Proofs.Layout.Written
import Abacus.Proofs.Typing.Stopping

/-!
# Skipped bytes are as good as blanks

The scanner skips the bytes of a fault and goes on behind them.  `Bytes.blanked` writes
blanks over all of these bytes.

`Blanks` relates a text with the one that has blanks for its faults, piece by piece, and
`blanks_blankOut` says that the offsets of the faults describe just this.  What holds no
blank in the second text stands in the first as well (`Blanks.isPrefix`), and no lexeme but
a string holds a blank.  So the blanks make no token longer (`Blanks.longestLexeme`), the
tokens stay and no fault is left (`Blanks.scans`).
-/

namespace Abacus

/-- Whether the byte at `offset` is skipped because of the fault: it belongs to the unexpected
character, or comes behind the opening quote of an unclosed string or is that quote. -/
def PlacedFault.skips (f : PlacedFault) (offset : Nat) : Bool :=
  match f.fault with
  | .unexpected _ => f.span.contains offset
  | .unterminated => f.span.start ≤ offset

namespace Bytes

/-- The text with blanks in the place of some of its bytes. -/
def blankOut (skipped : Nat → Bool) (s : Bytes) : Bytes :=
  s.mapIdx fun i b => if skipped i then blank else b

/-- The text with blanks for the bytes that the scanner skips because of faults. -/
def blanked (source : Bytes) : Bytes :=
  source.blankOut fun i => (scan source).faults.any (·.skips i)

section BlankOut

variable {skipped skipped' : Nat → Bool} {s : Bytes}

@[simp] theorem length_blankOut : (s.blankOut skipped).length = s.length := List.length_mapIdx

theorem blankOut_append (front : Bytes) :
    blankOut skipped (front ++ s) =
      front.blankOut skipped ++ s.blankOut fun i => skipped (i + front.length) :=
  List.mapIdx_append

theorem getElem_blankOut {i : Nat} (h : i < (s.blankOut skipped).length) :
    (s.blankOut skipped)[i] =
      if skipped i then blank else s.get ⟨i, by rwa [length_blankOut] at h⟩ :=
  List.getElem_mapIdx

theorem blankOut_congr (h : ∀ i < s.length, skipped i = skipped' i) :
    s.blankOut skipped = s.blankOut skipped' := by
  apply List.ext_getElem (by simp)
  intro i hi hi'
  rw [length_blankOut] at hi
  rw [getElem_blankOut, getElem_blankOut, h i hi]

theorem blankOut_eq_self (h : ∀ i < s.length, skipped i = false) : s.blankOut skipped = s := by
  apply List.ext_getElem (by simp)
  intro i hi hi'
  rw [getElem_blankOut, h i hi']
  rfl

theorem blankOut_eq_copies (h : ∀ i < s.length, skipped i = true) :
    s.blankOut skipped = copies s.length blank := by
  apply List.ext_getElem (by simp [copies])
  intro i hi hi'
  rw [length_blankOut] at hi
  rw [getElem_blankOut, h i hi]
  simp [copies]

end BlankOut

end Bytes

/-! ## Piece by piece -/

/-- The second text is the first one with blanks in the place of its faults. -/
inductive Blanks : Bytes → Bytes → Prop where
  | nil : Blanks [] []
  | kept {p : Piece} {front s s' : Bytes} (hp : PieceOf (front ++ s) p)
      (hsize : front.length = p.size) (hkind : ∀ f, p.kind ≠ .fault f) (h : Blanks s s') :
      Blanks (front ++ s) (front ++ s')
  | skipped {p : Piece} {f : LexFault} {front s s' : Bytes} (hp : PieceOf (front ++ s) p)
      (hsize : front.length = p.size) (hkind : p.kind = .fault f) (h : Blanks s s') :
      Blanks (front ++ s) (Bytes.copies front.length Bytes.blank ++ s')

theorem PlacedFault.le_of_skips {f : PlacedFault} {i : Nat} (h : f.skips i = true) :
    f.span.start ≤ i := by
  unfold PlacedFault.skips at h
  split at h
  · exact (by simpa [Span.contains] using h : _ ∧ _).1
  · simpa using h

theorem PlacedPiece.fault?_eq_none_iff {r : PlacedPiece} :
    r.fault? = none ↔ ∀ f, r.piece.kind ≠ .fault f := by
  unfold PlacedPiece.fault?
  cases r.piece.kind with
  | fault f => cases f <;> simp
  | _ => simp

/-- The faults behind a place skip no byte before it. -/
theorem any_skips_eq_false {faults : List PlacedFault} {start i : Nat}
    (h : ∀ f ∈ faults, (start : Int) ≤ f.span.start) (hi : i < start) :
    faults.any (·.skips i) = false := by
  rw [List.any_eq_false]
  intro f hf hskips
  have hle := PlacedFault.le_of_skips hskips
  have hstart := h f hf
  omega

theorem start_le_of_mem_faults {offset : Nat} {s : Bytes} {f : PlacedFault}
    (hf : f ∈ (piecesFrom offset 0 s).filterMap PlacedPiece.fault?) :
    (offset : Int) ≤ f.span.start := by
  obtain ⟨r, hr, hrf⟩ := List.mem_filterMap.mp hf
  have hoffset := (pieceOf_of_mem_piecesFrom hr).1
  rw [PlacedPiece.fault?_start hrf]
  omega

/-- The fault of a piece skips the bytes of the piece and no others. -/
theorem PieceOf.skips_iff {s : Bytes} {p : Piece} {offset i : Nat} {f : PlacedFault}
    (hp : PieceOf s p) (hf : (PlacedPiece.mk offset p).fault? = some f) (hi : i < s.length) :
    f.skips (offset + i) = true ↔ i < p.size := by
  cases hp with
  | blank => cases hf
  | comment => cases hf
  | token => cases hf
  | unexpected =>
    cases hf
    simp [PlacedFault.skips, PlacedPiece.span, Span.contains]
  | unterminated heq =>
    cases hf
    rw [heq, List.length_cons] at hi
    simp [PlacedFault.skips, hi]

/-- The faults of a text give the blanks piece by piece. -/
theorem blanks_blankOut (offset : Nat) (s : Bytes) :
    Blanks s (s.blankOut fun i =>
      ((piecesFrom offset 0 s).filterMap PlacedPiece.fault?).any (·.skips (offset + i))) := by
  induction offset, s using Scan.induction with
  | nil offset => exact .nil
  | cut offset s p hp ih =>
    obtain ⟨front, rest, rfl, hsize⟩ : ∃ front rest, s = front ++ rest ∧ front.length = p.size :=
      ⟨_, _, (List.take_append_drop p.size s).symm, by simp [hp.size_le]⟩
    rw [← hsize, List.drop_left] at ih
    rw [piecesFrom_of_pieceOf hp, Bytes.blankOut_append, ← hsize, List.drop_left]
    -- The faults behind this piece do not reach back into it.
    have hlater : ∀ i < front.length,
        ((piecesFrom (offset + front.length) 0 rest).filterMap PlacedPiece.fault?).any
          (·.skips (offset + i)) = false := by
      intro i hi
      exact any_skips_eq_false (fun f hf => start_le_of_mem_faults hf) (by omega)
    have hcomm : ∀ i, offset + (i + front.length) = offset + front.length + i := by omega
    cases hf : (PlacedPiece.mk offset p).fault? with
    | none =>
      rw [List.filterMap_cons_none hf, Bytes.blankOut_eq_self hlater]
      simp only [hcomm]
      exact .kept hp hsize (PlacedPiece.fault?_eq_none_iff.mp hf) ih
    | some f =>
      obtain ⟨fault, hkind⟩ : ∃ fault, p.kind = .fault fault := by
        cases hkind : p.kind with
        | fault fault => exact ⟨fault, rfl⟩
        | _ => simp [PlacedPiece.fault?, hkind] at hf
      have hskips : ∀ i < front.length + rest.length,
          f.skips (offset + i) = true ↔ i < front.length := by
        intro i hi
        rw [hsize]
        exact hp.skips_iff hf (by simpa using hi)
      rw [List.filterMap_cons_some hf, Bytes.blankOut_eq_copies]
      · rw [← Bytes.blankOut_congr] at ih
        · exact .skipped hp hsize hkind ih
        · intro i hi
          have hno : f.skips (offset + (i + front.length)) = false := by
            rw [← Bool.not_eq_true, hskips _ (by omega)]
            omega
          rw [List.any_cons, hno, Bool.false_or, hcomm]
      · intro i hi
        rw [List.any_cons, (hskips i (by omega)).mpr hi, Bool.true_or]

/-! ## Lexemes in front of blanks -/

theorem PieceOf.ne_nil {s front : Bytes} {p : Piece} (hp : PieceOf s p)
    (hsize : front.length = p.size) : front ≠ [] := by
  rw [← List.length_pos_iff, hsize]
  exact hp.size_pos

namespace Blanks

variable {s s' front : Bytes} {p : Piece}

/-- What holds no blank was there before. -/
theorem isPrefix {q : Bytes} (h : Blanks s s') (hq : q <+: s')
    (hno : ∀ b ∈ q, Scan.isBlank b = false) : q <+: s := by
  induction h generalizing q with
  | nil => exact hq
  | @kept p front s s' hp hsize hkind h ih =>
    by_cases hshort : q.length ≤ front.length
    · exact (List.prefix_of_prefix_length_le hq (List.prefix_append front s') hshort).trans
        (List.prefix_append front s)
    · obtain ⟨tail, rfl⟩ :=
        List.prefix_of_prefix_length_le (List.prefix_append front s') hq (by omega)
      rw [List.prefix_append_right_inj] at hq ⊢
      exact ih hq fun b hb => hno b (List.mem_append_right front hb)
  | @skipped p f front s s' hp hsize hkind h ih =>
    cases q with
    | nil => exact List.nil_prefix
    | cons b q =>
      -- The first byte would be one of the blanks.
      have hb := hno b List.mem_cons_self
      cases front with
      | nil => exact absurd rfl (hp.ne_nil hsize)
      | cons c front =>
        rw [List.length_cons, Bytes.copies, List.replicate_succ, List.cons_append,
          List.cons_prefix_cons] at hq
        rw [hq.1] at hb
        contradiction

/-- A blank at the head of a text, or its end, stays. -/
theorem head?_eq (h : Blanks s s') (hs : ∀ b ∈ s.head?, Scan.isBlank b = true) :
    s'.head? = s.head? := by
  cases h with
  | nil => rfl
  | @kept p front s s' hp hsize hkind h =>
    cases front with
    | nil => exact absurd rfl (hp.ne_nil hsize)
    | cons b front => rfl
  | @skipped p f front s s' hp hsize hkind h =>
    cases front with
    | nil => exact absurd rfl (hp.ne_nil hsize)
    | cons b front =>
      have hblank : StartsBlank (b :: front ++ s) := startsBlank_cons.mpr (hs b rfl)
      cases hp with
      | unexpected _ _ hnothing => exact absurd hblank hnothing.blank
      | unterminated _ _ hnothing => exact absurd hblank hnothing.blank
      | _ => cases hkind

/-- A lexeme stays the longest one in front of blanks. -/
theorem longestLexeme {k : TokenKind} (h : Blanks (front ++ s) (front ++ s'))
    (hfront : LongestLexeme (front ++ s) k front) : LongestLexeme (front ++ s') k front := by
  by_cases hk : k = .string
  · subst hk
    obtain ⟨inside, hinside, rfl⟩ := hfront.lexeme
    simpa using (@Scan.string_longest inside s' hinside).2
  · refine ⟨List.prefix_append front s', hfront.lexeme, ?_⟩
    intro k' q hq hlexeme
    -- Both lexemes start with one byte, so this is no string either and holds no blank.
    have hk' : k' ≠ .string := by
      rintro rfl
      cases front with
      | nil => exact hfront.lexeme.ne_nil rfl
      | cons c front =>
        have hfamily := family_of_isPrefix hfront.lexeme (List.prefix_refl _)
        rw [← family_of_isPrefix hlexeme hq] at hfamily
        exact hk (Scan.quote_kind hfamily)
    refine hfront.longest k' q (h.isPrefix hq ?_) hlexeme
    intro b hb
    rw [← Bool.not_eq_true]
    intro hblank
    exact hk' (hlexeme.eq_string_of_isBlank hb hblank)

/-- A piece that is not a fault stays. -/
theorem pieceOf (hp : PieceOf (front ++ s) p) (hsize : front.length = p.size)
    (hkind : ∀ f, p.kind ≠ .fault f) (h : Blanks s s') : PieceOf (front ++ s') p := by
  have hne := hp.ne_nil hsize
  have hwhole : Blanks (front ++ s) (front ++ s') := .kept hp hsize hkind h
  cases hp with
  | blank hblank =>
    rw [startsBlank_append hne] at hblank
    exact .blank ((startsBlank_append hne).mpr hblank)
  | @comment inside rest heq hinside hrest =>
    obtain ⟨rfl, rfl⟩ : front = 0x2f :: 0x2f :: inside ∧ s = rest :=
      List.append_inj heq (by simpa using hsize)
    refine .comment rfl hinside ?_
    rw [h.head?_eq]
    · exact hrest
    · intro b hb
      rw [hrest b hb]
      decide
  | @token k text hblank hcomment htext =>
    obtain rfl : text = front := by
      obtain ⟨tail, htail⟩ := htext.isPrefix
      exact (List.append_inj htail hsize.symm).1
    rw [startsBlank_append hne] at hblank
    refine .token (mt (startsBlank_append hne).mp hblank) ?_ (hwhole.longestLexeme htext)
    intro hstarts
    refine hcomment (hwhole.isPrefix hstarts ?_)
    intro b hb
    obtain rfl : b = 0x2f := by simpa using hb
    rfl
  | unexpected => exact absurd rfl (hkind _)
  | unterminated => exact absurd rfl (hkind _)

end Blanks

theorem isGap_copies (n : Nat) : IsGap (Bytes.copies n Bytes.blank) := by
  induction n with
  | zero => exact .nil
  | succ n ih => exact .blank (by decide) ih

/-- The text of a token is found behind whatever stands before it. -/
theorem text_of_token? {before front : Bytes} {p : Piece} {t : Token}
    (ht : (PlacedPiece.mk before.length p).token? = some t) (hsize : front.length = p.size)
    (s : Bytes) : t.text (before ++ (front ++ s)) = front := by
  obtain ⟨-, hspan⟩ := PlacedPiece.token?_eq_some_iff.mp ht
  have hplace : t.span = ⟨before.length, before.length + front.length⟩ := by
    rw [← hspan, hsize]
    rfl
  rw [Token.text, hplace, ← List.append_assoc]
  exact text_token t.kind before front s

/-- Blanks for the faults keep the tokens and leave no fault. -/
theorem Blanks.scans {s s' : Bytes} (h : Blanks s s') {before before' : Bytes}
    (hlength : before.length = before'.length) :
    TokensAlike Eq (before ++ s) (before' ++ s')
        ((piecesFrom before.length 0 s).filterMap PlacedPiece.token?)
        ((piecesFrom before.length 0 s').filterMap PlacedPiece.token?) ∧
      (piecesFrom before.length 0 s').filterMap PlacedPiece.fault? = [] := by
  induction h generalizing before before' with
  | nil => exact ⟨.nil, rfl⟩
  | @kept p front s s' hp hsize hkind h ih =>
    obtain ⟨htokens, hfaults⟩ := @ih (before ++ front) (before' ++ front) (by simp [hlength])
    have hfault : (PlacedPiece.mk before.length p).fault? = none :=
      PlacedPiece.fault?_eq_none_iff.mpr hkind
    rw [List.length_append] at htokens hfaults
    rw [List.append_assoc, List.append_assoc] at htokens
    rw [piecesFrom_of_pieceOf hp, piecesFrom_of_pieceOf (h.pieceOf hp hsize hkind), ← hsize,
      List.drop_left, List.drop_left, List.filterMap_cons_none hfault]
    refine ⟨?_, hfaults⟩
    cases ht : (PlacedPiece.mk before.length p).token? with
    | none =>
      rw [List.filterMap_cons_none ht, List.filterMap_cons_none ht]
      exact htokens
    | some t =>
      rw [List.filterMap_cons_some ht, List.filterMap_cons_some ht]
      refine .cons ⟨rfl, ?_, rfl⟩ htokens
      rw [text_of_token? ht hsize]
      rw [hlength] at ht
      rw [text_of_token? ht hsize]
  | @skipped p f front s s' hp hsize hkind h ih =>
    have ih := @ih (before ++ front) (before' ++ Bytes.copies front.length Bytes.blank)
      (by simp [hlength, Bytes.copies])
    have htoken : (PlacedPiece.mk before.length p).token? = none := by
      simp [PlacedPiece.token?, hkind]
    have hgap := isGap_copies front.length
    rw [List.append_assoc, List.append_assoc, List.length_append] at ih
    rw [piecesFrom_of_pieceOf hp, ← hsize, List.drop_left, List.filterMap_cons_none htoken,
      hgap.filterMap_piecesFrom token?_eq_none, hgap.filterMap_piecesFrom fault?_eq_none,
      Bytes.copies, List.length_replicate]
    exact ih

theorem eq_of_tokensAlike {source source' : Bytes} {ts ts' : List Token}
    (h : TokensAlike Eq source source' ts ts') : ts = ts' := by
  induction h with
  | nil => rfl
  | @cons t t' ts ts' ht _ ih =>
    obtain ⟨kind, span⟩ := t
    obtain ⟨kind', span'⟩ := t'
    obtain rfl : kind = kind' := ht.kind
    obtain rfl : span = span' := ht.span
    rw [ih]

/-- Blanks for the skipped bytes keep the tokens of a text and their texts, and leave no
fault. -/
theorem tokensAlike_blanked (source : Bytes) :
    TokensAlike Eq source source.blanked (scan source).tokens (scan source.blanked).tokens ∧
      (scan source.blanked).faults = [] := by
  have hblanks : Blanks source source.blanked := by
    have h := blanks_blankOut 0 source
    simp only [Nat.zero_add] at h
    exact h
  have hend : Token.Alike Eq source source.blanked (endToken source) (endToken source.blanked) := by
    refine ⟨rfl, ?_, ?_⟩
    · rw [text_endToken, text_endToken]
    · simp [endToken, Bytes.blanked]
  obtain ⟨htokens, hfaults⟩ := @Blanks.scans _ _ hblanks [] [] rfl
  exact ⟨List.rel_append htokens (.cons hend .nil), hfaults⟩

/-! ## Programs -/

/-- Code is generated with a look at spans only, not at the marks of operators. -/
theorem generate_eq_of_alike {e e' : Expr} (h : e.Alike Eq e') (limits : Limits) :
    e.generate limits = e'.generate limits := by
  have hemit : ∀ c, e.emit c = e'.emit c := by
    induction h with
    | leaf k v hspan =>
      subst hspan
      intro c
      cases k <;> rfl
    | unary op hspan h ih =>
      subst hspan
      intro c
      rw [Expr.emit, Expr.emit, ih]
    | binary op hspan hl hr ihl ihr =>
      subst hspan
      intro c
      rw [Expr.emit, Expr.emit, ihl]
      simp only [ihr]
  rw [Expr.generate, Expr.generate, hemit, h.span]

/-- Writing blanks over all bytes that are skipped because of faults leaves a text without a
fault and with the same tokens.  It compiles to the same code, constants, places and kind, or
fails with the same report at the same spans, whatever the limits are. -/
theorem compile_blanked (source : Bytes) (limits : Limits) :
    (scan source.blanked).faults = [] ∧ (scan source.blanked).tokens = (scan source).tokens ∧
      Agree (ReportedAlike Eq Failure.diagnostic source source.blanked)
        (fun p p' => p.chunk = p'.chunk ∧ p.kind = p'.kind) (compile source limits)
        (compile source.blanked limits) := by
  obtain ⟨htokens, hfaults⟩ := tokensAlike_blanked source
  have hkept : KeptByCover Eq := by
    rintro s _ t _ rfl rfl
    rfl
  refine ⟨hfaults, ?_, ?_⟩
  · exact (eq_of_tokensAlike htokens).symm
  · rcases (compile_alike hkept htokens limits).cases with
      ⟨f, f', hf, hx, hx'⟩ | ⟨p, p', hp, hx, hx'⟩
    · rw [hx, hx']
      exact .error hf
    · obtain ⟨e, hparse, -, hgenerate⟩ := stages_of_compile hx
      obtain ⟨e', hparse', -, hgenerate'⟩ := stages_of_compile hx'
      have hparsed := parseTokens_alike hkept htokens
      rw [parse] at hparse hparse'
      rw [hparse, hparse'] at hparsed
      cases hparsed with
      | ok halike =>
        rw [generate_eq_of_alike halike, hgenerate'] at hgenerate
        rw [hx, hx']
        exact .ok ⟨(Except.ok.inj hgenerate).symm, hp.kind⟩

example : (utf8 "1$.5 <@= /#/ \"x").blanked = utf8 "1 .5 < = / /   " := by decide +kernel

end Abacus
