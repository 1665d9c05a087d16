import Abacus.Proofs.Grammar.Parsing
import Abacus.Proofs.Scan.Munch

/-!
# The leaves of a parsed expression

`Expr.leaves` lists the literals of an expression from left to right, with their places.
The parser makes one leaf of each literal among its tokens and keeps their order
(`Derivation.spans_leaves`).  Tokens follow each other in the source, so the leaves of a
parsed expression stand in the order of the source (`pairwise_leaves`).
-/

namespace Abacus

/-- A leaf of an expression. -/
structure Literal where
  kind : LeafKind
  value : Value
  span : Span
  deriving DecidableEq

/-- One literal stands in the source before another. -/
def Literal.Precedes (x y : Literal) : Prop :=
  x.span.start < y.span.start ∧ x.span.stop ≤ y.span.start

namespace Expr

/-- The leaves of an expression, from left to right. -/
def leaves : Expr → List Literal
  | .leaf k v span _ => [⟨k, v, span⟩]
  | .unary _ _ _ e => e.leaves
  | .binary _ _ _ l r => l.leaves ++ r.leaves

/-- The integers and floating-point numbers among the leaves. -/
def numbers (e : Expr) : List Literal :=
  e.leaves.filter fun x => x.kind = .int ∨ x.kind = .float

/-- The truth values among the leaves. -/
def truths (e : Expr) : List Literal :=
  e.leaves.filter fun x => x.kind = .bool

/-- How many operators the expression has. -/
def operators : Expr → Nat
  | .leaf .. => 0
  | .unary _ _ _ e => e.operators + 1
  | .binary _ _ _ l r => l.operators + r.operators + 1

end Expr

namespace Grammar

/-- The places of the literals among some tokens. -/
def literalSpans (ts : List Token) : List Span :=
  (ts.filter fun t => isLiteral t.kind).map Token.span

section LiteralSpans

variable {t : Token} {ts us : List Token}

theorem literalSpans_append : literalSpans (ts ++ us) = literalSpans ts ++ literalSpans us := by
  simp [literalSpans]

theorem literalSpans_cons_other (ht : isLiteral t.kind = false) :
    literalSpans (t :: ts) = literalSpans ts := by
  simp [literalSpans, ht]

theorem literalSpans_singleton (ht : isLiteral t.kind = true) : literalSpans [t] = [t.span] := by
  simp [literalSpans, ht]

end LiteralSpans

theorem spans_leaves_readLeaf (source : Bytes) (t : Token) :
    (readLeaf source t).leaves.map Literal.span = [t.span] := by
  unfold readLeaf readLeaf?
  split
  · cases readInt32? (t.text source) <;> rfl
  · cases (readFloat (t.text source)).toOption <;> rfl
  · rfl
  · rfl
  · rfl

mutual

/-- The leaves of an expression stand where the literals of its tokens do. -/
theorem Derivation.spans_leaves {leaf : Token → Expr}
    (hleaf : ∀ t, (leaf t).leaves.map Literal.span = [t.span]) :
    {p : Phrase} → (d : Derivation p) →
      (d.expr leaf).leaves.map Literal.span = literalSpans d.tokens
  | _, .literal t hkind => (hleaf t).trans (literalSpans_singleton hkind).symm
  | _, .group opening inner closing hopening hclosing => by
    have hinner := inner.spans_leaves hleaf
    have hopen : isLiteral opening.kind = false := by rw [hopening]; rfl
    have hclose : isLiteral closing.kind = false := by rw [hclosing]; rfl
    show (inner.expr leaf).leaves.map Literal.span = _
    rw [Derivation.tokens, literalSpans_cons_other hopen, literalSpans_append,
      literalSpans_cons_other hclose, hinner]
    exact (List.append_nil _).symm
  | _, .applied t op operand hop => by
    have hoperand := operand.spans_leaves hleaf
    show (operand.expr leaf).leaves.map Literal.span = _
    rw [Derivation.tokens, literalSpans_cons_other (unaryOperator?_isLiteral hop), hoperand]
  | _, .primary d => d.spans_leaves hleaf
  | _, .chain first more => by
    have hfirst := first.spans_leaves hleaf
    rw [Derivation.expr, more.spans_leavesFrom hleaf, hfirst, Derivation.tokens,
      literalSpans_append]

theorem Repeated.spans_leavesFrom {leaf : Token → Expr}
    (hleaf : ∀ t, (leaf t).leaves.map Literal.span = [t.span]) :
    {r : Rank} → (more : Repeated r) → {left : Expr} →
      (more.exprFrom leaf left).leaves.map Literal.span =
        left.leaves.map Literal.span ++ literalSpans more.tokens
  | _, .nil, _ => (List.append_nil _).symm
  | _, .cons t op operand more hop, left => by
    have hoperand := operand.spans_leaves hleaf
    rw [Repeated.exprFrom, more.spans_leavesFrom hleaf, Repeated.tokens,
      literalSpans_cons_other (Rank.isLiteral_eq_false hop), literalSpans_append, ← hoperand,
      ← List.append_assoc]
    show ((left.leaves ++ (operand.expr leaf).leaves).map Literal.span) ++ _ = _
    rw [List.map_append]

end

/-- Every token of a source text ends before the next one starts. -/
theorem pairwise_spans_tokens (source : Bytes) :
    ((pieces source).filterMap PlacedPiece.token?).Pairwise fun t u =>
      t.span.start < u.span.start ∧ t.span.stop ≤ u.span.start := by
  rw [List.pairwise_filterMap]
  refine (tiles_pieces source).pairwise.imp ?_
  intro r r' hlt t ht u hu
  obtain ⟨-, hspan⟩ := PlacedPiece.token?_eq_some_iff.mp ht
  obtain ⟨-, hspan'⟩ := PlacedPiece.token?_eq_some_iff.mp hu
  rw [← hspan, ← hspan']
  show (r.offset : Int) < r'.offset ∧ (r.offset + r.piece.size : Int) ≤ r'.offset
  omega

/-- From left to right, the leaves of a parsed expression stand in the order of the
source. -/
theorem pairwise_leaves {source : Bytes} {e : Expr} (hparse : parse source = .ok e) :
    e.leaves.Pairwise Literal.Precedes := by
  obtain ⟨d, htokens, -, rfl⟩ := (parseTokens_ok_iff source (scan source).tokens e).mp hparse
  have hspans := d.spans_leaves (spans_leaves_readLeaf source)
  have hordered : ((d.expr (readLeaf source)).leaves.map Literal.span).Pairwise
      fun s s' => s.start < s'.start ∧ s.stop ≤ s'.start := by
    rw [hspans, literalSpans, List.pairwise_map, htokens]
    have hscan : beforeEnd (scan source).tokens =
        (pieces source).filterMap PlacedPiece.token? := takeWhile_scan source
    rw [hscan]
    exact (pairwise_spans_tokens source).filter _
  rw [List.pairwise_map] at hordered
  exact hordered

end Grammar

end Abacus
