import Abacus.Proofs.Generate.Decompile
import Abacus.Proofs.Grammar.Leaves
import Abacus.Proofs.Grammar.Nesting
import Abacus.Proofs.Layout.Written

/-!
# Parsing a printed expression

`Expr.text` puts parentheses around every operator expression, blanks around binary operators
and nothing behind unary ones.  The lexemes of such a text are the longest ones where they
start, though not all of them have a blank behind them (`LongestLexeme.pieceOf`): a literal
ends at a blank or a parenthesis, and no sign is followed by the second half of a mark.

`rereadsAt_text` goes by induction over the expression.  It shows of a text that holds a
printed expression somewhere that the scan passes over it with the tokens of a primary phrase,
which denotes the expression and nests as deep as `Expr.parentheses` counts.  A primary phrase
can be the operand of any operator, and any phrase the inside of parentheses, so precedence
does not matter.
-/

namespace Abacus

/-! ## Lexemes without blanks between them -/

/-- A longest lexeme that does not start with a slash is a piece. -/
theorem LongestLexeme.pieceOf {s text : Bytes} {k : TokenKind} (h : LongestLexeme s k text)
    (hslash : text.head? ≠ some 0x2f) : PieceOf s ⟨.token k, text.length⟩ := by
  obtain ⟨rest, rfl⟩ := h.isPrefix
  refine .token ?_ ?_ h
  · rw [startsBlank_append h.lexeme.ne_nil]
    exact h.lexeme.not_startsBlank
  · rintro ⟨z, hz⟩
    cases text with
    | nil => exact h.lexeme.ne_nil rfl
    | cons b text =>
      rw [(List.cons.inj hz).1] at hslash
      exact hslash rfl

/-- A mark of one byte is a piece, if the next byte does not make it one of two bytes. -/
theorem pieceOf_mark {m : Mark} {b : UInt8} {rest : Bytes} (hm : m.text = [b])
    (hslash : b ≠ 0x2f) (hnext : ∀ c ∈ rest.head?, ∀ m' : Mark, m'.text ≠ [b, c]) :
    PieceOf (b :: rest) ⟨.token (.mark m), 1⟩ := by
  have hlongest : LongestLexeme (b :: rest) (.mark m) [b] := by
    refine ⟨⟨rest, rfl⟩, hm.symm, ?_⟩
    intro k q hhead hq
    have hfamily : k.family? = some .mark := by
      obtain ⟨c, tail, htext, hc⟩ := m.family_text
      rw [hm] at htext
      rw [family_of_isPrefix hq hhead, (List.cons.inj htext).1, hc]
    obtain ⟨m', rfl⟩ := Scan.mark_kind hfamily
    obtain rfl : q = m'.text := hq
    have hlength : m'.text.length ≤ 2 := by
      cases m' <;> decide
    obtain ⟨z, hz⟩ := hhead
    rcases htext : m'.text with _ | ⟨x, _ | ⟨c, tail⟩⟩
    · simp
    · simp
    · rw [htext] at hz hlength
      obtain ⟨rfl, rfl⟩ := List.cons.inj hz
      obtain rfl : tail = [] := by simpa using hlength
      exact absurd htext (hnext c rfl m')
  exact hlongest.pieceOf (by simpa using hslash)

/-- What follows an expression in a printed text. -/
def ClosesOperand (s : Bytes) : Prop :=
  ∀ b ∈ s.head?, b = 0x29 ∨ b = 0x20

theorem closesOperand_cons {b : UInt8} (hb : b = 0x29 ∨ b = 0x20) (s : Bytes) :
    ClosesOperand (b :: s) := by
  intro c hc
  obtain rfl : b = c := Option.some.inj hc
  exact hb

section Literals

variable {tail : Bytes}

theorem pieceOf_word (w : Word) (htail : ClosesOperand tail) :
    PieceOf (w.text ++ tail) ⟨.token (.word w), w.text.length⟩ := by
  have hback : ∀ c ∈ tail.head?, Bytes.isWord c = false := by
    intro c hc
    rcases htail c hc with rfl | rfl <;> decide
  have hlongest : LongestLexeme (w.text ++ tail) (.word w) w.text :=
    ⟨List.prefix_append _ _, rfl, fun k q hhead hq =>
      Scan.length_le_of_isName w.isName_text hback hhead hq⟩
  apply hlongest.pieceOf
  obtain ⟨b, rest, htext, hb, -⟩ := w.isName_text
  rw [htext]
  intro h
  obtain rfl : b = 0x2f := Option.some.inj h
  contradiction

theorem pieceOf_numeral {s : Bytes} (hs : IsNumeral s) (htail : ClosesOperand tail) :
    PieceOf (s ++ tail) ⟨.token .integer, s.length⟩ := by
  have hback : ∀ c ∈ tail.head?, Bytes.isDigit c = false := by
    intro c hc
    rcases htail c hc with rfl | rfl <;> decide
  have hpoint : ∀ d rest, tail = 0x2e :: d :: rest → Bytes.isDigit d = false := by
    rintro d rest rfl
    rcases htail 0x2e rfl with h | h <;> cases h
  apply (Scan.integer_longest hs hback hpoint).pieceOf
  cases s with
  | nil => exact absurd rfl hs.1
  | cons b s =>
    intro h
    obtain rfl : b = 0x2f := Option.some.inj h
    have hdigit := hs.isDigit List.mem_cons_self
    contradiction

end Literals

/-! ## Scanning from one offset to another -/

/-- A scan that has come to the offset `start` gives the tokens, and no fault, before it comes
to `stop`. -/
structure ScansBetween (source : Bytes) (start : Nat) (tokens : List Token) (stop : Nat) :
    Prop where
  tokens_eq : (piecesFrom start 0 (source.drop start)).filterMap PlacedPiece.token? =
    tokens ++ (piecesFrom stop 0 (source.drop stop)).filterMap PlacedPiece.token?
  faults_eq : (piecesFrom start 0 (source.drop start)).filterMap PlacedPiece.fault? =
    (piecesFrom stop 0 (source.drop stop)).filterMap PlacedPiece.fault?

section Scans

variable {source text rest : Bytes} {i j k : Nat} {ts us : List Token}

theorem drop_add_length (h : source.drop i = text ++ rest) :
    source.drop (i + text.length) = rest := by
  rw [← List.drop_drop, h, List.drop_left]

theorem drop_succ_of_cons {b : UInt8} (h : source.drop i = b :: rest) :
    source.drop (i + 1) = rest :=
  @drop_add_length source [b] rest i h

theorem ScansBetween.trans (h : ScansBetween source i ts j) (h' : ScansBetween source j us k) :
    ScansBetween source i (ts ++ us) k := by
  constructor
  · rw [h.tokens_eq, h'.tokens_eq, List.append_assoc]
  · rw [h.faults_eq, h'.faults_eq]

theorem scansBetween_token {kind : TokenKind} (h : source.drop i = text ++ rest)
    (hp : PieceOf (text ++ rest) ⟨.token kind, text.length⟩) :
    ScansBetween source i [⟨kind, ⟨i, i + text.length⟩⟩] (i + text.length) := by
  have hrest := drop_add_length h
  constructor
  · rw [h, piecesFrom_of_pieceOf hp, hrest, List.drop_left]
    rfl
  · rw [h, piecesFrom_of_pieceOf hp, hrest, List.drop_left]
    rfl

theorem scansBetween_mark {m : Mark} {b : UInt8} (h : source.drop i = b :: rest)
    (hm : m.text = [b]) (hslash : b ≠ 0x2f)
    (hnext : ∀ c ∈ rest.head?, ∀ m' : Mark, m'.text ≠ [b, c]) :
    ScansBetween source i [⟨.mark m, ⟨i, i + 1⟩⟩] (i + 1) :=
  @scansBetween_token source [b] rest i (.mark m) h (pieceOf_mark hm hslash hnext)

theorem scansBetween_blank (h : source.drop i = Bytes.blank :: rest) :
    ScansBetween source i [] (i + 1) := by
  have hrest := drop_succ_of_cons h
  have hp : PieceOf (Bytes.blank :: rest) ⟨.blank, 1⟩ := .blank (startsBlank_cons.mpr rfl)
  constructor
  · rw [h, piecesFrom_of_pieceOf hp, hrest]
    rfl
  · rw [h, piecesFrom_of_pieceOf hp, hrest]
    rfl

end Scans

/-! ## Phrases as expressions -/

namespace Grammar

/-- Phrases are built up to the loosest one. -/
theorem Phrase.loosest_induction {motive : Phrase → Prop} (expression : motive .expression)
    (operand : ∀ r : Rank, motive (.chain r) → motive r.operand)
    (primary : motive .unary → motive .primary) (p : Phrase) : motive p := by
  have hand := operand .or expression
  have hequality := operand .and hand
  have hcomparison := operand .equality hequality
  have hterm := operand .comparison hcomparison
  have hfactor := operand .term hterm
  have hunary := operand .factor hfactor
  cases p with
  | primary => exact primary hunary
  | unary => exact hunary
  | chain r =>
    cases r with
    | or => exact expression
    | and => exact hand
    | equality => exact hequality
    | comparison => exact hcomparison
    | term => exact hterm
    | factor => exact hfactor

/-- Every phrase is a whole expression. -/
theorem Derivation.exists_expression {p : Phrase} (d : Derivation p) :
    ∃ c : Derivation .expression, c.SameAs d := by
  induction p using Phrase.loosest_induction with
  | expression => exact ⟨d, rfl, rfl, fun _ => rfl⟩
  | operand r ih =>
    obtain ⟨c, hc⟩ := ih (.chain d .nil)
    exact ⟨c, hc.trans d.sameAs_chain⟩
  | primary ih =>
    obtain ⟨c, hc⟩ := ih (.primary d)
    exact ⟨c, hc.tokens, hc.nesting, hc.expr⟩

theorem Admitted.mono {source : Bytes} {m n i : Nat} {ts : List Token} (h : Admitted source m ts i)
    (hle : m ≤ n) : Admitted source n ts i :=
  ⟨h.literals, Nat.le_trans h.depth hle⟩

end Grammar

/-! ## Marks of operators -/

theorem UnaryOp.exists_mark (op : UnaryOp) :
    ∃ m b, op.symbol = [b] ∧ Mark.text m = [b] ∧ b ≠ 0x2f ∧
      Grammar.unaryOperator? (.mark m) = some op ∧ ∀ c ≠ 0x3d, ∀ m' : Mark, m'.text ≠ [b, c] := by
  cases op with
  | negate =>
    refine ⟨.minus, 0x2d, rfl, rfl, by decide, rfl, ?_⟩
    intro c hc m'
    cases m' <;> simp [Mark.text, hc.symm]
  | not =>
    refine ⟨.bang, 0x21, rfl, rfl, by decide, rfl, ?_⟩
    intro c hc m'
    cases m' <;> simp [Mark.text, hc.symm]

theorem BinaryOp.exists_mark (op : BinaryOp) :
    ∃ (m : Mark) (r : Grammar.Rank), op.symbol = m.text ∧ r.operator? (.mark m) = some op := by
  cases op with
  | add => exact ⟨.plus, .term, rfl, rfl⟩
  | sub => exact ⟨.minus, .term, rfl, rfl⟩
  | mul => exact ⟨.star, .factor, rfl, rfl⟩
  | div => exact ⟨.slash, .factor, rfl, rfl⟩
  | greater => exact ⟨.greater, .comparison, rfl, rfl⟩
  | less => exact ⟨.less, .comparison, rfl, rfl⟩
  | greaterEqual => exact ⟨.greaterEqual, .comparison, rfl, rfl⟩
  | lessEqual => exact ⟨.lessEqual, .comparison, rfl, rfl⟩
  | equal => exact ⟨.equalEqual, .equality, rfl, rfl⟩
  | notEqual => exact ⟨.bangEqual, .equality, rfl, rfl⟩
  | and => exact ⟨.ampAmp, .and, rfl, rfl⟩
  | or => exact ⟨.pipePipe, .or, rfl, rfl⟩

/-! ## Reading a printed expression -/

/-- A leaf that is printed as a literal: a natural number or a truth value. -/
def Literal.Printable (x : Literal) : Prop :=
  (x.kind = .int ∧ ∃ i : Int32, x.value = .int i ∧ 0 ≤ i.toInt) ∨
    (x.kind = .bool ∧ ∃ b, x.value = .bool b)

/-- How many parentheses and unary operators lie around the deepest part of the printed
expression. -/
def Expr.parentheses : Expr → Nat
  | .leaf .. => 0
  | .unary _ _ _ e => 2 + e.parentheses
  | .binary _ _ _ l r => 1 + max l.parentheses r.parentheses

/-- A natural number is printed in digits. -/
theorem Value.text_int {i : Int32} (h : 0 ≤ i.toInt) :
    (Value.int i).text = Bytes.ofNat i.toInt.toNat := by
  obtain ⟨n, hn⟩ := Int.eq_ofNat_of_zero_le h
  rw [Value.text, hn]
  rfl

/-- The text of an expression does not start like the second half of a mark. -/
theorem Expr.head_textOnto_ne {e : Expr} (he : ∀ x ∈ e.leaves, x.Printable) (tail : Bytes) :
    ∀ b ∈ (e.textOnto tail).head?, b ≠ 0x3d := by
  intro b hb
  cases e with
  | leaf kind v span mark =>
    rcases he _ List.mem_cons_self with ⟨-, i, rfl, hi⟩ | ⟨-, c, rfl⟩
    · have hnumeral := Bytes.isNumeral_ofNat i.toInt.toNat
      rw [textOnto, Value.text_int hi] at hb
      generalize Bytes.ofNat i.toInt.toNat = s at hb hnumeral
      match s, hnumeral with
      | d :: s, hnumeral =>
        obtain rfl : d = b := Option.some.inj hb
        exact ne_of_isDigit (hnumeral.isDigit List.mem_cons_self) (by decide)
    · cases c with
      | true =>
        obtain rfl : 0x74 = b := Option.some.inj hb
        decide
      | false =>
        obtain rfl : 0x66 = b := Option.some.inj hb
        decide
  | unary op span mark e =>
    obtain rfl : 0x28 = b := Option.some.inj hb
    decide
  | binary op span mark l r =>
    obtain rfl : 0x28 = b := Option.some.inj hb
    decide

namespace Grammar

/-- From `start` to `stop`, the source is derived as a phrase that denotes the expression, up
to places, and nests as deep as its printed text. -/
structure Rereads (source : Bytes) (e : Expr) {p : Phrase} (d : Derivation p) (start stop : Nat) :
    Prop where
  scans : ScansBetween source start d.tokens stop
  admitted : Admitted source e.parentheses d.tokens d.nesting
  unplaced : (d.expr (readLeaf source)).unplaced = e.unplaced

/-- The expression is read again where it is printed in front of `tail`. -/
def RereadsAt (source : Bytes) (e : Expr) (start : Nat) (tail : Bytes) : Prop :=
  ∃ (d : Derivation .primary) (stop : Nat), Rereads source e d start stop ∧
    source.drop stop = tail

section Rereads

variable {source text tail : Bytes} {e l r : Expr} {start mid : Nat} {span mark : Span}

theorem Rereads.of_sameAs {p q : Phrase} {c : Derivation p} {d : Derivation q}
    (h : Rereads source e d start mid) (hc : c.SameAs d) : Rereads source e c start mid := by
  refine ⟨?_, ?_, ?_⟩
  · rw [hc.tokens]
    exact h.scans
  · rw [hc.tokens, hc.nesting]
    exact h.admitted
  · rw [hc.expr]
    exact h.unplaced

theorem rereadsAt_literal {kind : TokenKind} {leaf : Expr}
    (h : source.drop start = text ++ tail)
    (hp : PieceOf (text ++ tail) ⟨.token kind, text.length⟩)
    (hleaf : readLeaf? source ⟨kind, ⟨start, start + text.length⟩⟩ = some leaf)
    (hunplaced : leaf.unplaced = e.unplaced) : RereadsAt source e start tail := by
  have hkind : isLiteral kind = true := isLiteral_of_readLeaf? hleaf
  refine ⟨.literal ⟨kind, ⟨start, start + text.length⟩⟩ hkind, start + text.length, ⟨?_, ?_, ?_⟩,
    drop_add_length h⟩
  · exact scansBetween_token h hp
  · refine ⟨?_, Nat.zero_le _⟩
    intro t ht _
    rw [List.mem_singleton.mp ht, hleaf]
    rfl
  · rw [Derivation.expr, readLeaf, hleaf]
    exact hunplaced

/-- Parentheses around a phrase make it primary. -/
theorem rereadsAt_group {inside : Bytes} {n : Nat} {p : Phrase} {d : Derivation p}
    (hopen : source.drop start = 0x28 :: inside) (hclose : source.drop mid = 0x29 :: tail)
    (hscans : ScansBetween source (start + 1) d.tokens mid)
    (hadmitted : Admitted source n d.tokens d.nesting) (hn : n + 1 = e.parentheses)
    (hunplaced : (d.expr (readLeaf source)).unplaced = e.unplaced) :
    RereadsAt source e start tail := by
  have hnarrow : ∀ b, b = 0x28 ∨ b = 0x29 → ∀ c, ∀ m : Mark, m.text ≠ [b, c] := by
    rintro b (rfl | rfl) c m <;> cases m <;> simp [Mark.text]
  let opening : Token := ⟨.mark .openParen, ⟨start, start + 1⟩⟩
  let closing : Token := ⟨.mark .closeParen, ⟨mid, mid + 1⟩⟩
  have hopening : ScansBetween source start [opening] (start + 1) :=
    scansBetween_mark hopen rfl (by decide) fun c _ => hnarrow 0x28 (.inl rfl) c
  have hclosing : ScansBetween source mid [closing] (mid + 1) :=
    scansBetween_mark hclose rfl (by decide) fun c _ => hnarrow 0x29 (.inr rfl) c
  obtain ⟨inner, hinner⟩ := d.exists_expression
  rw [← hinner.tokens, ← hinner.nesting] at hadmitted
  rw [← hinner.tokens] at hscans
  rw [← hinner.expr] at hunplaced
  refine ⟨.group opening inner closing rfl rfl, mid + 1, ⟨?_, ?_, hunplaced⟩,
    drop_succ_of_cons hclose⟩
  · exact hopening.trans (hscans.trans hclosing)
  · rw [← hn]
    exact (admitted_group rfl rfl).mpr hadmitted

/-- A unary operator goes with the operand behind it, which does not make its mark longer. -/
theorem rereadsAt_unary {op : UnaryOp}
    (hs : source.drop start = (Expr.unary op span mark e).textOnto tail)
    (hhead : ∀ b ∈ (e.textOnto (0x29 :: tail)).head?, b ≠ 0x3d)
    (he : ∀ {i}, source.drop i = e.textOnto (0x29 :: tail) → RereadsAt source e i (0x29 :: tail)) :
    RereadsAt source (.unary op span mark e) start tail := by
  obtain ⟨m, b, hsymbol, hm, hslash, hop, hnext⟩ := op.exists_mark
  rw [Expr.textOnto, hsymbol, List.singleton_append] at hs
  have hsign := drop_succ_of_cons hs
  obtain ⟨d, stop, hd, hstop⟩ := he (drop_succ_of_cons hsign)
  let sign : Token := ⟨.mark m, ⟨(start + 1 : Nat), (start + 1 : Nat) + 1⟩⟩
  have hscans : ScansBetween source (start + 1) [sign] (start + 1 + 1) :=
    scansBetween_mark hsign hm hslash fun c hc => hnext c (hhead c hc)
  -- The sign and the parentheses count for one level each.
  refine rereadsAt_group (d := .applied sign op (.primary d) hop) hs hstop
    (hscans.trans hd.scans) ((admitted_applied hop).mpr hd.admitted) ?_ ?_
  · rw [Expr.parentheses]
    omega
  · show Expr.unary op .nowhere .nowhere (d.expr (readLeaf source)).unplaced = _
    rw [hd.unplaced]
    rfl

/-- A binary operator stands between blanks, and both operands are primary, so that they are
operands of every rank. -/
theorem rereadsAt_binary {op : BinaryOp}
    (hs : source.drop start = (Expr.binary op span mark l r).textOnto tail)
    (hl : ∀ {i s}, source.drop i = l.textOnto (0x20 :: s) → RereadsAt source l i (0x20 :: s))
    (hr : ∀ {i}, source.drop i = r.textOnto (0x29 :: tail) → RereadsAt source r i (0x29 :: tail)) :
    RereadsAt source (.binary op span mark l r) start tail := by
  obtain ⟨m, rank, hsymbol, hop⟩ := op.exists_mark
  rw [Expr.textOnto, hsymbol] at hs
  obtain ⟨dl, j, hleft, hj⟩ := hl (drop_succ_of_cons hs)
  have hmark := drop_succ_of_cons hj
  have hafter := drop_add_length hmark
  obtain ⟨dr, k, hright, hk⟩ := hr (drop_succ_of_cons hafter)
  let sign : Token := ⟨.mark m, ⟨(j + 1 : Nat), (j + 1 : Nat) + m.text.length⟩⟩
  have hsign : ScansBetween source (j + 1) [sign] (j + 1 + m.text.length) := by
    refine scansBetween_token hmark (IsLexeme.pieceOf (k := .mark m) rfl ?_)
    intro b hb
    obtain rfl : 0x20 = b := Option.some.inj hb
    rfl
  obtain ⟨first, hfirst⟩ := dl.exists_sameAs rank.operand
  obtain ⟨second, hsecond⟩ := dr.exists_sameAs rank.operand
  replace hleft := hleft.of_sameAs hfirst
  replace hright := hright.of_sameAs hsecond
  refine rereadsAt_group (d := .chain first (.cons sign op second .nil hop)) hs hk ?_ ?_
    (Nat.add_comm _ 1) ?_
  · show ScansBetween source (start + 1) (first.tokens ++ sign :: (second.tokens ++ [])) k
    rw [List.append_nil]
    exact hleft.scans.trans ((scansBetween_blank hj).trans
      (hsign.trans ((scansBetween_blank hafter).trans hright.scans)))
  · show Admitted source _ (first.tokens ++ sign :: (second.tokens ++ []))
      (max first.nesting (max second.nesting 0))
    rw [List.append_nil, Nat.max_zero, admitted_append,
      admitted_cons (Rank.isLiteral_eq_false hop)]
    exact ⟨hleft.admitted.mono (Nat.le_max_left _ _), hright.admitted.mono (Nat.le_max_right _ _)⟩
  · show Expr.binary op .nowhere .nowhere (first.expr (readLeaf source)).unplaced
      (second.expr (readLeaf source)).unplaced = _
    rw [hleft.unplaced, hright.unplaced]
    rfl

/-- An expression that is printed somewhere is read again there. -/
theorem rereadsAt_text (he : ∀ x ∈ e.leaves, x.Printable) (hs : source.drop start = e.textOnto tail)
    (htail : ClosesOperand tail) : RereadsAt source e start tail := by
  induction e generalizing start tail with
  | leaf kind v span mark =>
    rcases he _ List.mem_cons_self with ⟨hkind, i, hv, hi⟩ | ⟨hkind, b, hv⟩
    · obtain rfl : kind = .int := hkind
      obtain rfl : v = .int i := hv
      rw [Expr.textOnto, Value.text_int hi] at hs
      let t : Token := ⟨.integer, ⟨start, start + (Bytes.ofNat i.toInt.toNat).length⟩⟩
      have hleaf : readLeaf? source t = some (.ofInt i t.span) := by
        show (readInt32? (t.text source)).map _ = _
        rw [text_of_drop .integer hs, readInt32?_ofNat hi]
        rfl
      exact rereadsAt_literal hs (pieceOf_numeral (Bytes.isNumeral_ofNat _) htail) hleaf rfl
    · obtain rfl : kind = .bool := hkind
      obtain rfl : v = .bool b := hv
      cases b with
      | true => exact rereadsAt_literal hs (pieceOf_word .true htail) rfl rfl
      | false => exact rereadsAt_literal hs (pieceOf_word .false htail) rfl rfl
  | unary op span mark e ih =>
    apply rereadsAt_unary hs (e.head_textOnto_ne he _)
    intro i hi
    exact ih he hi (closesOperand_cons (.inl rfl) tail)
  | binary op span mark l r ihl ihr =>
    apply rereadsAt_binary hs
    · intro i s hi
      exact ihl (fun x hx => he x (List.mem_append_left _ hx)) hi (closesOperand_cons (.inr rfl) s)
    · intro i hi
      exact ihr (fun x hx => he x (List.mem_append_right _ hx)) hi
        (closesOperand_cons (.inl rfl) tail)

end Rereads

/-! ## The leaves of a parsed expression -/

mutual

/-- Every leaf is that of a literal among the tokens. -/
theorem Derivation.exists_of_mem_leaves {leaf : Token → Expr} {x : Literal} :
    {p : Phrase} → (d : Derivation p) → x ∈ (d.expr leaf).leaves →
      ∃ t ∈ d.tokens, isLiteral t.kind = true ∧ x ∈ (leaf t).leaves
  | _, .literal t hkind, hx => ⟨t, List.mem_singleton_self t, hkind, hx⟩
  | _, .group opening inner closing _ _, hx => by
    obtain ⟨t, ht, hleaf⟩ := inner.exists_of_mem_leaves hx
    exact ⟨t, by simp [Derivation.tokens, ht], hleaf⟩
  | _, .applied t op operand _, hx => by
    obtain ⟨t', ht, hleaf⟩ := operand.exists_of_mem_leaves hx
    exact ⟨t', List.mem_cons_of_mem t ht, hleaf⟩
  | _, .primary d, hx => d.exists_of_mem_leaves hx
  | _, .chain first more, hx => by
    rcases more.exists_of_mem_leaves hx with hx | ⟨t, ht, hleaf⟩
    · obtain ⟨t, ht, hleaf⟩ := first.exists_of_mem_leaves hx
      exact ⟨t, List.mem_append_left _ ht, hleaf⟩
    · exact ⟨t, List.mem_append_right _ ht, hleaf⟩

theorem Repeated.exists_of_mem_leaves {leaf : Token → Expr} {x : Literal} :
    {r : Rank} → (more : Repeated r) → {left : Expr} → x ∈ (more.exprFrom leaf left).leaves →
      x ∈ left.leaves ∨ ∃ t ∈ more.tokens, isLiteral t.kind = true ∧ x ∈ (leaf t).leaves
  | _, .nil, _, hx => .inl hx
  | _, .cons t op operand more _, left, hx => by
    rcases more.exists_of_mem_leaves hx with hx | ⟨t', ht, hleaf⟩
    · rcases List.mem_append.mp hx with hx | hx
      · exact .inl hx
      · obtain ⟨t', ht, hleaf⟩ := operand.exists_of_mem_leaves hx
        exact .inr ⟨t', by simp [Repeated.tokens, ht], hleaf⟩
    · exact .inr ⟨t', by simp [Repeated.tokens, ht], hleaf⟩

end

theorem hasNumberText_of_mem_tokens {source : Bytes} {t : Token}
    (ht : t ∈ (pieces source).filterMap PlacedPiece.token?) : HasNumberText source t := by
  have hlexeme := (longest_of_mem_tokens ht).1.lexeme
  unfold HasNumberText
  cases hkind : t.kind with
  | integer =>
    rw [hkind] at hlexeme
    exact hlexeme
  | float =>
    rw [hkind] at hlexeme
    exact hlexeme
  | _ => trivial

/-- The leaves of a parsed expression that are no floating-point numbers are printed as
literals: there is no sign in a number of the source. -/
theorem printable_of_parse {source : Bytes} {e : Expr} (hparse : parse source = .ok e)
    {x : Literal} (hx : x ∈ e.leaves) (hfloat : x.kind ≠ .float) : x.Printable := by
  obtain ⟨d, htokens, hadmitted, rfl⟩ :=
    (parseTokens_ok_iff source (scan source).tokens e).mp hparse
  have hscan : beforeEnd (scan source).tokens =
      (pieces source).filterMap PlacedPiece.token? := takeWhile_scan source
  obtain ⟨t, ht, hkind, hx⟩ := d.exists_of_mem_leaves hx
  obtain ⟨leaf, hleaf⟩ := Option.isSome_iff_exists.mp (hadmitted.literals t ht hkind)
  rw [htokens, hscan] at ht
  obtain ⟨hrange, rfl⟩ := (readLeaf?_eq_some_iff (hasNumberText_of_mem_tokens ht) hkind).mp hleaf
  rw [readLeaf, hleaf, Option.getD_some] at hx
  unfold leafOf at hx
  split at hx
  · next hinteger =>
    rw [InRange, hinteger] at hrange
    obtain rfl := List.mem_singleton.mp hx
    refine .inl ⟨rfl, _, rfl, ?_⟩
    have hle : Bytes.digitsValue (t.text source) ≤ 2147483647 := hrange
    rw [Int32.toInt_ofInt_of_le (by omega) (by omega)]
    omega
  · obtain rfl := List.mem_singleton.mp hx
    exact absurd rfl hfloat
  · obtain rfl := List.mem_singleton.mp hx
    exact .inr ⟨rfl, _, rfl⟩

end Grammar

/-! ## Printed programs -/

@[simp] theorem Expr.textOnto_unplaced (e : Expr) (tail : Bytes) :
    e.unplaced.textOnto tail = e.textOnto tail := by
  induction e generalizing tail with
  | leaf => rfl
  | unary op span mark e ih => simp [unplaced, textOnto, ih]
  | binary op span mark l r ihl ihr => simp [unplaced, textOnto, ihl, ihr]

theorem Tree.text?_ofExpr (e : Expr) : (Tree.ofExpr e).text? = some e.text := by
  have hempty := isEmpty_ofExpr e
  rw [isEmpty, Bool.or_eq_false_iff] at hempty
  rw [text?, hempty.1, expr?_ofExpr]
  rfl

/-- The text of a parsed expression without floating-point numbers is scanned without a fault
and parsed again, if its parentheses and signs do not nest too deep.  The tree is the same but
for the places of its nodes, and so it has the same text. -/
theorem parse_text_of_parse {source : Bytes} {e : Expr} (hparse : parse source = .ok e)
    (hfloat : ∀ x ∈ e.leaves, x.kind ≠ .float) (hdepth : e.parentheses ≤ 1000) :
    ∃ text e', (Tree.ofExpr e).text? = some text ∧ parse text = .ok e' ∧
      (scan text).faults = [] ∧ (Tree.ofExpr e').unplaced = (Tree.ofExpr e).unplaced ∧
      (Tree.ofExpr e').text? = some text := by
  have hprintable : ∀ x ∈ e.leaves, x.Printable :=
    fun x hx => Grammar.printable_of_parse hparse hx (hfloat x hx)
  have hstart : e.text.drop 0 = e.textOnto [] := rfl
  obtain ⟨d, stop, hd, hstop⟩ := Grammar.rereadsAt_text hprintable hstart (fun b hb => nomatch hb)
  have htokens := hd.scans.tokens_eq
  have hfaults := hd.scans.faults_eq
  rw [hstop] at htokens hfaults
  obtain ⟨c, hc⟩ := d.exists_expression
  have hread : parse e.text = .ok (c.expr (Grammar.readLeaf e.text)) := by
    refine (Grammar.parseTokens_ok_iff e.text _ _).mpr ⟨c, ?_, ?_, rfl⟩
    · rw [Grammar.beforeEnd, takeWhile_scan, hc.tokens]
      exact (htokens.trans (List.append_nil _)).symm
    · rw [hc.tokens, hc.nesting]
      exact hd.admitted.mono hdepth
  have hunplaced : (c.expr (Grammar.readLeaf e.text)).unplaced = e.unplaced := by
    rw [hc.expr]
    exact hd.unplaced
  refine ⟨e.text, _, Tree.text?_ofExpr e, hread, hfaults,
    Tree.unplaced_ofExpr_eq_iff.mpr hunplaced, ?_⟩
  rw [Tree.text?_ofExpr, Expr.text, ← Expr.textOnto_unplaced, hunplaced, Expr.textOnto_unplaced,
    Expr.text]

/-- The zeros in front of a number are gone when `007--2*!true<3` is printed. -/
theorem parse_text_of_parse_zeros :
    let source := utf8 "007--2*!true<3"
    let text := utf8 "((7 - ((-2) * (!true))) < 3)"
    let product : Expr :=
      .joined .mul ⟨6, 7⟩ (.applied .negate ⟨4, 5⟩ (.ofInt 2 ⟨5, 6⟩))
        (.applied .not ⟨7, 8⟩ (.ofBool true ⟨8, 12⟩))
    let e : Expr :=
      .joined .less ⟨12, 13⟩ (.joined .sub ⟨3, 4⟩ (.ofInt 7 ⟨0, 3⟩) product) (.ofInt 3 ⟨13, 14⟩)
    parse source = .ok e ∧ (∀ x ∈ e.leaves, x.kind ≠ .float) ∧ e.parentheses ≤ 1000 ∧
      (Tree.ofExpr e).text? = some text ∧ (scan text).faults = [] ∧
      ∃ e', parse text = .ok e' ∧ (Tree.ofExpr e').unplaced = (Tree.ofExpr e).unplaced ∧
        (Tree.ofExpr e').text? = some text := by
  intro source text product e
  have hparse : parse source = .ok e := by decide +kernel
  have hfloat : ∀ x ∈ e.leaves, x.kind ≠ .float := by decide +kernel
  have hdepth : e.parentheses ≤ 1000 := by decide
  have htext : (Tree.ofExpr e).text? = some text := by decide +kernel
  obtain ⟨text', e', htext', hread, hfaults, htree, hsame⟩ :=
    parse_text_of_parse hparse hfloat hdepth
  obtain rfl : text = text' := Option.some.inj (htext.symm.trans htext')
  exact ⟨hparse, hfloat, hdepth, htext, hfaults, e', hread, htree, hsame⟩

end Abacus
