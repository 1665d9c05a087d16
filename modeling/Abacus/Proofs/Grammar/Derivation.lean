import Abacus.Expr.Basic
import Abacus.Token.Kind
import Abacus.Number.Binary32

/-!
# The grammar of expressions

    or         := and ('||' and)*
    and        := equality ('&&' equality)*
    equality   := comparison (('==' | '!=') comparison)*
    comparison := term (('>' | '<' | '>=' | '<=') term)*
    term       := factor (('+' | '-') factor)*
    factor     := unary (('*' | '/') unary)*
    unary      := ('-' | '!') unary | primary
    primary    := integer | float | 'true' | 'false' | '(' or ')'

A `Derivation` of a phrase is one way to build it by these rules, with the
tokens at its leaves.  It gives the tokens that it derives, the expression that
they denote, and how deep its parts lie under parentheses and unary operators.

`Derivation.unambiguous` says that the tokens determine the derivation: where
two phrases start at the same token, and behind neither of them stands a token
that could continue it, they end at the same token and are derived alike.
-/

namespace Abacus

namespace Grammar

/-! ## Phrases -/

/-- The phrases in which operands stand with binary operators between them, from
the loosest to the tightest. -/
inductive Rank where
  | or | and | equality | comparison | term | factor
  deriving DecidableEq

/-- The phrases of the grammar. -/
inductive Phrase where
  | chain (r : Rank)
  | unary
  | primary
  deriving DecidableEq

/-- A whole expression. -/
abbrev Phrase.expression : Phrase := .chain .or

namespace Rank

/-- The operands of a rank are the phrases of the next tighter one. -/
def operand : Rank → Phrase
  | .or => .chain .and
  | .and => .chain .equality
  | .equality => .chain .comparison
  | .comparison => .chain .term
  | .term => .chain .factor
  | .factor => .unary

/-- The operators of a rank. -/
def operator? : Rank → TokenKind → Option BinaryOp
  | .or, .mark .pipePipe => some .or
  | .and, .mark .ampAmp => some .and
  | .equality, .mark .equalEqual => some .equal
  | .equality, .mark .bangEqual => some .notEqual
  | .comparison, .mark .greater => some .greater
  | .comparison, .mark .less => some .less
  | .comparison, .mark .greaterEqual => some .greaterEqual
  | .comparison, .mark .lessEqual => some .lessEqual
  | .term, .mark .plus => some .add
  | .term, .mark .minus => some .sub
  | .factor, .mark .star => some .mul
  | .factor, .mark .slash => some .div
  | _, _ => none

end Rank

/-- The operators that stand before their operand. -/
def unaryOperator? : TokenKind → Option UnaryOp
  | .mark .minus => some .negate
  | .mark .bang => some .not
  | _ => none

/-- The kinds of tokens that are literals. -/
def isLiteral : TokenKind → Bool
  | .integer | .float | .word .true | .word .false => true
  | _ => false

/-! ## Derivations -/

mutual

/-- A derivation of a phrase. -/
inductive Derivation : Phrase → Type where
  | literal (t : Token) (hkind : isLiteral t.kind = true) : Derivation .primary
  | group (opening : Token) (inner : Derivation .expression) (closing : Token)
      (hopening : opening.kind = .mark .openParen) (hclosing : closing.kind = .mark .closeParen) :
      Derivation .primary
  | applied (t : Token) (op : UnaryOp) (operand : Derivation .unary)
      (hop : unaryOperator? t.kind = some op) : Derivation .unary
  | primary (d : Derivation .primary) : Derivation .unary
  | chain {r : Rank} (first : Derivation r.operand) (more : Repeated r) : Derivation (.chain r)

/-- Operators of a rank, each with the operand behind it. -/
inductive Repeated : Rank → Type where
  | nil {r : Rank} : Repeated r
  | cons {r : Rank} (t : Token) (op : BinaryOp) (operand : Derivation r.operand)
      (more : Repeated r) (hop : r.operator? t.kind = some op) : Repeated r

end

mutual

/-- The tokens that a derivation derives. -/
def Derivation.tokens : {p : Phrase} → Derivation p → List Token
  | _, .literal t _ => [t]
  | _, .group opening inner closing _ _ => opening :: (inner.tokens ++ [closing])
  | _, .applied t _ operand _ => t :: operand.tokens
  | _, .primary d => d.tokens
  | _, .chain first more => first.tokens ++ more.tokens

/-- The tokens of operators and operands. -/
def Repeated.tokens : {r : Rank} → Repeated r → List Token
  | _, .nil => []
  | _, .cons t _ operand more _ => t :: (operand.tokens ++ more.tokens)

end

mutual

/-- How many parentheses and unary operators lie around the deepest part. -/
def Derivation.nesting : {p : Phrase} → Derivation p → Nat
  | _, .literal _ _ => 0
  | _, .group _ inner _ _ _ => inner.nesting + 1
  | _, .applied _ _ operand _ => operand.nesting + 1
  | _, .primary d => d.nesting
  | _, .chain first more => max first.nesting more.nesting

/-- How many lie around the deepest part of the operands. -/
def Repeated.nesting : {r : Rank} → Repeated r → Nat
  | _, .nil => 0
  | _, .cons _ _ operand more _ => max operand.nesting more.nesting

end

mutual

/-- The expression that a derivation denotes, with the given leaves for its
literals.  Operators of one rank group to the left. -/
def Derivation.expr (leaf : Token → Expr) : {p : Phrase} → Derivation p → Expr
  | _, .literal t _ => leaf t
  | _, .group _ inner _ _ _ => inner.expr leaf
  | _, .applied t op operand _ => .applied op t.span (operand.expr leaf)
  | _, .primary d => d.expr leaf
  | _, .chain first more => more.exprFrom leaf (first.expr leaf)

/-- The expression that operators and operands make of the one before them. -/
def Repeated.exprFrom (leaf : Token → Expr) : {r : Rank} → Repeated r → Expr → Expr
  | _, .nil, left => left
  | _, .cons t op operand more _, left =>
    more.exprFrom leaf (.joined op t.span left (operand.expr leaf))

end

mutual

/-- Only the leaves of literals among its tokens matter to what a derivation
denotes. -/
theorem Derivation.expr_congr {leaf leaf' : Token → Expr} : {p : Phrase} → (d : Derivation p) →
    (∀ t ∈ d.tokens, isLiteral t.kind = true → leaf t = leaf' t) → d.expr leaf = d.expr leaf'
  | _, .literal t hkind, h => h t (by simp [Derivation.tokens]) hkind
  | _, .group opening inner closing _ _, h =>
    inner.expr_congr fun t ht => h t (by simp [Derivation.tokens, ht])
  | _, .applied t op operand _, h => by
    have hoperand := operand.expr_congr fun t ht => h t (by simp [Derivation.tokens, ht])
    simp only [Derivation.expr, hoperand]
  | _, .primary d, h => d.expr_congr h
  | _, .chain first more, h => by
    have hfirst := first.expr_congr fun t ht => h t (by simp [Derivation.tokens, ht])
    have hmore := more.exprFrom_congr fun t ht => h t (by simp [Derivation.tokens, ht])
    simp only [Derivation.expr, hfirst, hmore]

theorem Repeated.exprFrom_congr {leaf leaf' : Token → Expr} : {r : Rank} → (more : Repeated r) →
    (∀ t ∈ more.tokens, isLiteral t.kind = true → leaf t = leaf' t) →
      more.exprFrom leaf = more.exprFrom leaf'
  | _, .nil, _ => rfl
  | _, .cons t op operand more _, h => by
    have hoperand := operand.expr_congr fun t ht => h t (by simp [Repeated.tokens, ht])
    have hmore := more.exprFrom_congr fun t ht => h t (by simp [Repeated.tokens, ht])
    funext left
    simp only [Repeated.exprFrom, hoperand, hmore]

end

/-! ## What follows a phrase -/

/-- The place of a rank, counted from the loosest. -/
def Rank.level : Rank → Nat
  | .or => 0
  | .and => 1
  | .equality => 2
  | .comparison => 3
  | .term => 4
  | .factor => 5

/-- The ranks whose operators continue a phrase are those from its level on. -/
def Phrase.level : Phrase → Nat
  | .chain r => r.level
  | .unary => 6
  | .primary => 6

/-- The tokens in `rest` do not continue a phrase in front of them. -/
def Closed (p : Phrase) (rest : List Token) : Prop :=
  ∀ t ∈ rest.head?, ∀ r : Rank, p.level ≤ r.level → r.operator? t.kind = none

theorem Rank.level_operand (r : Rank) : r.operand.level = r.level + 1 := by
  cases r <;> rfl

theorem Rank.level_lt (r : Rank) : r.level < 6 := by
  cases r <;> decide

/-- No operator belongs to two ranks. -/
theorem Rank.eq_of_operator? {r r' : Rank} {k : TokenKind} {op op' : BinaryOp}
    (hop : r.operator? k = some op) (hop' : r'.operator? k = some op') : r = r' := by
  unfold Rank.operator? at hop hop'
  split at hop <;> cases r' <;> simp_all

section Closed

variable {p : Phrase} {r : Rank} {t : Token} {rest : List Token}

theorem closed_nil : Closed p [] := by
  intro t ht
  simp at ht

theorem Closed.operator?_eq_none (h : Closed (.chain r) (t :: rest)) : r.operator? t.kind = none :=
  h t (by simp) r (Nat.le_refl _)

/-- What does not continue a chain does not continue its last operand either. -/
theorem Closed.operand (h : Closed (.chain r) rest) : Closed r.operand rest := by
  intro t ht r' hlevel
  rw [Rank.level_operand] at hlevel
  exact h t ht r' (Nat.le_of_succ_le hlevel)

/-- An operator ends the operand in front of it. -/
theorem closed_operator {op : BinaryOp} (hop : r.operator? t.kind = some op) :
    Closed r.operand (t :: rest) := by
  intro t' ht r' hlevel
  obtain rfl : t = t' := by simpa using ht
  cases hop' : r'.operator? t.kind with
  | none => rfl
  | some op' =>
    obtain rfl := Rank.eq_of_operator? hop hop'
    rw [Rank.level_operand] at hlevel
    omega

theorem closed_closeParen (ht : t.kind = .mark .closeParen) : Closed p (t :: rest) := by
  intro t' ht' r _
  obtain rfl : t = t' := by simpa using ht'
  rw [ht]
  cases r <;> rfl

theorem closed_unary : Closed .unary rest := by
  intro t _ r hlevel
  exact absurd r.level_lt (Nat.not_lt.mpr hlevel)

theorem closed_primary : Closed .primary rest :=
  closed_unary

/-- Operators and operands of a rank end the operand in front of them. -/
theorem Repeated.closed (more : Repeated r) (h : Closed (.chain r) rest) :
    Closed r.operand (more.tokens ++ rest) := by
  cases more with
  | nil => exact h.operand
  | cons t op operand more hop => exact closed_operator hop

end Closed

/-! ## Unambiguity -/

theorem Derivation.tokens_primary (d : Derivation .primary) :
    ∃ t ts, d.tokens = t :: ts ∧ unaryOperator? t.kind = none := by
  cases d with
  | literal t hkind =>
    refine ⟨t, [], rfl, ?_⟩
    unfold isLiteral at hkind
    split at hkind <;> simp_all [unaryOperator?]
  | group opening inner closing hopening hclosing =>
    exact ⟨opening, _, rfl, by rw [hopening]; rfl⟩

mutual

/-- The tokens of a phrase, up to where it ends, have one derivation. -/
theorem Derivation.unambiguous : {p : Phrase} → (d d' : Derivation p) → {rest rest' : List Token} →
    Closed p rest → Closed p rest' → d.tokens ++ rest = d'.tokens ++ rest' →
      d = d' ∧ rest = rest'
  | _, .literal t hkind, .literal t' hkind', _, _, _, _, h => by
    simpa [Derivation.tokens] using h
  | _, .literal t hkind, .group opening inner closing hopening hclosing, _, _, _, _, h => by
    simp only [Derivation.tokens, List.cons_append, List.cons.injEq] at h
    rw [h.1, hopening] at hkind
    contradiction
  | _, .group opening inner closing hopening hclosing, .literal t hkind, _, _, _, _, h => by
    simp only [Derivation.tokens, List.cons_append, List.cons.injEq] at h
    rw [← h.1, hopening] at hkind
    contradiction
  | _, .group opening inner closing hopening hclosing,
      .group opening' inner' closing' hopening' hclosing', rest, rest', _, _, h => by
    simp only [Derivation.tokens, List.cons_append, List.append_assoc, List.cons.injEq,
      List.nil_append] at h
    obtain ⟨rfl, hrest⟩ := h
    -- A closing parenthesis continues no expression, so both inner ones end there.
    obtain ⟨rfl, htail⟩ := Derivation.unambiguous inner inner'
      (closed_closeParen hclosing) (closed_closeParen hclosing') hrest
    simp_all
  | _, .applied t op operand hop, .applied t' op' operand' hop', rest, rest', _, _, h => by
    simp only [Derivation.tokens, List.cons_append, List.cons.injEq] at h
    obtain ⟨rfl, hrest⟩ := h
    obtain ⟨rfl, htail⟩ := Derivation.unambiguous operand operand' closed_unary closed_unary hrest
    rw [hop, Option.some.injEq] at hop'
    subst hop'
    exact ⟨rfl, htail⟩
  | _, .applied t op operand hop, .primary d, _, _, _, _, h => by
    obtain ⟨t', ts, htokens, hnone⟩ := d.tokens_primary
    simp only [Derivation.tokens, htokens, List.cons_append, List.cons.injEq] at h
    simp [← h.1, hop] at hnone
  | _, .primary d, .applied t op operand hop, _, _, _, _, h => by
    obtain ⟨t', ts, htokens, hnone⟩ := d.tokens_primary
    simp only [Derivation.tokens, htokens, List.cons_append, List.cons.injEq] at h
    simp [h.1, hop] at hnone
  | _, .primary d, .primary d', _, _, _, _, h => by
    obtain ⟨rfl, hrest⟩ := Derivation.unambiguous d d' closed_primary closed_primary h
    exact ⟨rfl, hrest⟩
  | _, .chain first more, .chain first' more', _, _, hrest, hrest', h => by
    simp only [Derivation.tokens, List.append_assoc] at h
    obtain ⟨rfl, hmore⟩ := Derivation.unambiguous first first'
      (more.closed hrest) (more'.closed hrest') h
    obtain ⟨rfl, htail⟩ := Repeated.unambiguous more more' hrest hrest' hmore
    exact ⟨rfl, htail⟩

/-- The operators and operands behind an operand have one derivation. -/
theorem Repeated.unambiguous : {r : Rank} → (m m' : Repeated r) → {rest rest' : List Token} →
    Closed (.chain r) rest → Closed (.chain r) rest' → m.tokens ++ rest = m'.tokens ++ rest' →
      m = m' ∧ rest = rest'
  | _, .nil, .nil, _, _, _, _, h => ⟨rfl, h⟩
  | _, .nil, .cons t op operand more hop, _, _, hrest, _, h => by
    -- One chain would go on where the other one is closed.
    simp only [Repeated.tokens, List.nil_append, List.cons_append] at h
    rw [h] at hrest
    simp [hrest.operator?_eq_none] at hop
  | _, .cons t op operand more hop, .nil, _, _, _, hrest', h => by
    simp only [Repeated.tokens, List.nil_append, List.cons_append] at h
    rw [← h] at hrest'
    simp [hrest'.operator?_eq_none] at hop
  | _, .cons t op operand more hop, .cons t' op' operand' more' hop', _, _, hrest, hrest', h => by
    simp only [Repeated.tokens, List.cons_append, List.append_assoc, List.cons.injEq] at h
    obtain ⟨rfl, h⟩ := h
    obtain ⟨rfl, hmore⟩ := Derivation.unambiguous operand operand'
      (more.closed hrest) (more'.closed hrest') h
    obtain ⟨rfl, htail⟩ := Repeated.unambiguous more more' hrest hrest' hmore
    rw [hop, Option.some.injEq] at hop'
    subst hop'
    exact ⟨rfl, htail⟩

end

end Grammar

end Abacus
