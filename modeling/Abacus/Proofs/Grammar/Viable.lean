import Abacus.Proofs.Grammar.Derivation
import Abacus.Shell.Prompt

/-!
# Expressions that are cut off

The first tokens of an expression either form an expression themselves or are
visibly *unfinished*: a parenthesis is open, or an operator stands at the end
(`Derivation.viable`).  A whole expression is never unfinished
(`Derivation.not_unfinished`).  Both rest on the parentheses of a derivation
being balanced, so that a phrase in front of other tokens does not count.
-/

namespace Abacus

namespace Grammar

/-! ## Parentheses -/

/-- The parentheses that some tokens leave open. -/
def excess (ts : List Token) : Int :=
  openParens (ts.map (·.kind))

section Excess

variable {t : Token} {ts us : List Token}

theorem excess_append : excess (ts ++ us) = excess ts + excess us := by
  simp only [excess, openParens, List.map_append, List.count_append]
  omega

theorem excess_cons : excess (t :: ts) = excess [t] + excess ts :=
  @excess_append [t] ts

theorem excess_openParen (ht : t.kind = .mark .openParen) : excess [t] = 1 := by
  simp [excess, openParens, ht]

theorem excess_closeParen (ht : t.kind = .mark .closeParen) : excess [t] = -1 := by
  simp [excess, openParens, ht]

theorem excess_plain (hopening : t.kind ≠ .mark .openParen)
    (hclosing : t.kind ≠ .mark .closeParen) : excess [t] = 0 := by
  simp [excess, openParens, hopening, hclosing]

end Excess

/-- Every parenthesis is closed behind where it is opened. -/
structure Balanced (ts : List Token) : Prop where
  total : excess ts = 0
  nonneg : ∀ front, front <+: ts → 0 ≤ excess front

section Balanced

variable {t opening closing : Token} {front ts us : List Token}

theorem isPrefix_append_iff :
    front <+: ts ++ us ↔ front <+: ts ∨ ∃ behind, behind <+: us ∧ front = ts ++ behind := by
  constructor
  · rintro ⟨rest, h⟩
    rcases List.append_eq_append_iff.mp h with ⟨behind, rfl, -⟩ | ⟨behind, rfl, hus⟩
    · exact .inl (List.prefix_append front behind)
    · exact .inr ⟨behind, ⟨rest, hus.symm⟩, rfl⟩
  · rintro (h | ⟨behind, h, rfl⟩)
    · exact h.trans (List.prefix_append ts us)
    · exact (List.prefix_append_right_inj ts).mpr h

/-- What is cut off from a group is nothing, or ends inside it, or is all of it. -/
theorem isPrefix_group (h : front <+: opening :: (ts ++ [closing])) :
    front = [] ∨ (∃ inner, inner <+: ts ∧ front = opening :: inner) ∨
      front = opening :: (ts ++ [closing]) := by
  rcases List.prefix_cons_iff.mp h with rfl | ⟨inner, rfl, hinner⟩
  · exact .inl rfl
  · rcases List.prefix_concat_iff.mp hinner with rfl | hinner
    · exact .inr (.inr rfl)
    · exact .inr (.inl ⟨inner, hinner, rfl⟩)

theorem balanced_nil : Balanced [] := by
  refine ⟨rfl, fun front hfront => ?_⟩
  rw [List.prefix_nil.mp hfront]
  exact Int.le_refl 0

theorem Balanced.append (hts : Balanced ts) (hus : Balanced us) : Balanced (ts ++ us) := by
  refine ⟨by rw [excess_append, hts.total, hus.total]; rfl, fun front hfront => ?_⟩
  rcases isPrefix_append_iff.mp hfront with hfront | ⟨behind, hbehind, rfl⟩
  · exact hts.nonneg front hfront
  · rw [excess_append, hts.total, Int.zero_add]
    exact hus.nonneg behind hbehind

theorem balanced_plain (ht : excess [t] = 0) : Balanced [t] := by
  refine ⟨ht, fun front hfront => ?_⟩
  rcases List.prefix_cons_iff.mp hfront with rfl | ⟨inner, rfl, hinner⟩
  · exact Int.le_refl 0
  · rw [List.prefix_nil.mp hinner]
    exact Int.le_of_eq ht.symm

theorem Balanced.cons (ht : excess [t] = 0) (hts : Balanced ts) : Balanced (t :: ts) :=
  (balanced_plain ht).append hts

theorem Balanced.group (hts : Balanced ts) (hopening : opening.kind = .mark .openParen)
    (hclosing : closing.kind = .mark .closeParen) : Balanced (opening :: (ts ++ [closing])) := by
  have htotal : excess (opening :: (ts ++ [closing])) = 0 := by
    rw [excess_cons, excess_append, hts.total, excess_openParen hopening,
      excess_closeParen hclosing]
    rfl
  refine ⟨htotal, fun front hfront => ?_⟩
  rcases isPrefix_group hfront with rfl | ⟨inner, hinner, rfl⟩ | rfl
  · exact Int.le_refl 0
  · have hnonneg := hts.nonneg inner hinner
    rw [excess_cons, excess_openParen hopening]
    omega
  · exact Int.le_of_eq htotal.symm

end Balanced

/-! ## Operators and literals -/

section Kinds

variable {t : Token}

theorem Rank.awaitsOperand {r : Rank} {op : BinaryOp} (hop : r.operator? t.kind = some op) :
    t.kind.awaitsOperand = true := by
  unfold Rank.operator? at hop
  split at hop <;> simp_all [TokenKind.awaitsOperand]

theorem unaryOperator?_awaitsOperand {op : UnaryOp} (hop : unaryOperator? t.kind = some op) :
    t.kind.awaitsOperand = true := by
  unfold unaryOperator? at hop
  split at hop <;> simp_all [TokenKind.awaitsOperand]

theorem excess_of_awaitsOperand (h : t.kind.awaitsOperand = true) : excess [t] = 0 := by
  refine excess_plain ?_ ?_ <;>
  · intro hkind
    rw [hkind] at h
    contradiction

theorem excess_of_isLiteral (h : isLiteral t.kind = true) : excess [t] = 0 := by
  refine excess_plain ?_ ?_ <;>
  · intro hkind
    rw [hkind] at h
    contradiction

theorem awaitsOperand_of_isLiteral (h : isLiteral t.kind = true) :
    t.kind.awaitsOperand = false := by
  unfold isLiteral at h
  split at h <;> simp_all [TokenKind.awaitsOperand]

end Kinds

mutual

/-- The parentheses of a phrase are balanced. -/
theorem Derivation.balanced : {p : Phrase} → (d : Derivation p) → Balanced d.tokens
  | _, .literal _ hkind => balanced_plain (excess_of_isLiteral hkind)
  | _, .group _ inner _ hopening hclosing => inner.balanced.group hopening hclosing
  | _, .applied _ _ operand hop =>
    operand.balanced.cons (excess_of_awaitsOperand (unaryOperator?_awaitsOperand hop))
  | _, .primary d => d.balanced
  | _, .chain first more => first.balanced.append more.balanced

theorem Repeated.balanced : {r : Rank} → (more : Repeated r) → Balanced more.tokens
  | _, .nil => balanced_nil
  | _, .cons _ _ operand more hop =>
    (operand.balanced.append more.balanced).cons (excess_of_awaitsOperand (Rank.awaitsOperand hop))

end

/-! ## Unfinished tokens -/

/-- A parenthesis is open, or the last token must be followed by an operand. -/
def Unfinished (ts : List Token) : Prop :=
  0 < excess ts ∨ ∃ t ∈ ts.getLast?, t.kind.awaitsOperand = true

section Unfinished

variable {t opening : Token} {ts us : List Token}

theorem not_unfinished_nil : ¬Unfinished [] := by
  rintro (h | ⟨t, ht, -⟩)
  · exact absurd h (Int.lt_irrefl 0)
  · cases ht

theorem unfinished_awaiting (ht : t.kind.awaitsOperand = true) : Unfinished [t] :=
  .inr ⟨t, rfl, ht⟩

/-- A balanced front does not count when something stands behind it. -/
theorem Balanced.unfinished_append (hts : Balanced ts) (hus : us ≠ []) :
    Unfinished (ts ++ us) ↔ Unfinished us := by
  have hlast := List.getLast?_eq_some_getLast hus
  unfold Unfinished
  rw [excess_append, hts.total, Int.zero_add, List.getLast?_append, hlast, Option.some_or]

theorem Balanced.not_unfinished_append (hts : Balanced ts) (hfront : ¬Unfinished ts)
    (hback : ¬Unfinished us) : ¬Unfinished (ts ++ us) := by
  by_cases hus : us = []
  · rwa [hus, List.append_nil]
  · rwa [hts.unfinished_append hus]

theorem unfinished_cons (ht : t.kind.awaitsOperand = true) :
    Unfinished (t :: ts) ↔ ts = [] ∨ Unfinished ts := by
  by_cases hts : ts = []
  · subst hts
    simpa using unfinished_awaiting ht
  · have hplain := balanced_plain (excess_of_awaitsOperand ht)
    have hcons := hplain.unfinished_append hts
    simpa [hts] using hcons

/-- Inside a group its parenthesis is open. -/
theorem unfinished_opening (hopening : opening.kind = .mark .openParen)
    (hts : 0 ≤ excess ts) : Unfinished (opening :: ts) := by
  left
  rw [excess_cons, excess_openParen hopening]
  omega

end Unfinished

theorem Derivation.tokens_ne_nil : {p : Phrase} → (d : Derivation p) → d.tokens ≠ []
  | _, .literal _ _ => List.cons_ne_nil _ _
  | _, .group _ _ _ _ _ => List.cons_ne_nil _ _
  | _, .applied _ _ _ _ => List.cons_ne_nil _ _
  | _, .primary d => d.tokens_ne_nil
  | _, .chain first _ => List.append_ne_nil_of_left_ne_nil first.tokens_ne_nil _

mutual

/-- A whole phrase is not unfinished. -/
theorem Derivation.not_unfinished : {p : Phrase} → (d : Derivation p) → ¬Unfinished d.tokens
  | _, .literal t hkind => by
    rintro (h | ⟨t', ht', hawaits⟩)
    · rw [Derivation.tokens, excess_of_isLiteral hkind] at h
      exact absurd h (Int.lt_irrefl 0)
    · obtain rfl : t = t' := Option.some.inj ht'
      rw [awaitsOperand_of_isLiteral hkind] at hawaits
      contradiction
  | _, .group opening inner closing hopening hclosing => by
    rintro (h | ⟨t, ht, hawaits⟩)
    · rw [Derivation.tokens, (inner.balanced.group hopening hclosing).total] at h
      exact absurd h (Int.lt_irrefl 0)
    · rw [Derivation.tokens, ← List.cons_append, List.getLast?_concat] at ht
      obtain rfl : closing = t := Option.some.inj ht
      rw [hclosing] at hawaits
      contradiction
  | _, .applied t op operand hop => by
    rw [Derivation.tokens, unfinished_cons (unaryOperator?_awaitsOperand hop)]
    rintro (h | h)
    · exact operand.tokens_ne_nil h
    · exact operand.not_unfinished h
  | _, .primary d => d.not_unfinished
  | _, .chain first more =>
    first.balanced.not_unfinished_append first.not_unfinished more.not_unfinished

theorem Repeated.not_unfinished : {r : Rank} → (more : Repeated r) → ¬Unfinished more.tokens
  | _, .nil => not_unfinished_nil
  | _, .cons t op operand more hop => by
    rw [Repeated.tokens, unfinished_cons (Rank.awaitsOperand hop)]
    rintro (h | h)
    · exact operand.tokens_ne_nil (List.append_eq_nil_iff.mp h).1
    · exact operand.balanced.not_unfinished_append operand.not_unfinished more.not_unfinished h

end

/-! ## Phrases that are cut off -/

/-- What is cut off from the front of a phrase is unfinished, or a phrase itself
that nests no deeper. -/
def Derivation.Viable {p : Phrase} (d : Derivation p) : Prop :=
  ∀ front, front <+: d.tokens → front ≠ [] → ¬Unfinished front →
    ∃ d' : Derivation p, d'.tokens = front ∧ d'.nesting ≤ d.nesting

/-- The same of operators and operands, of which nothing at all may be left. -/
def Repeated.Viable {r : Rank} (more : Repeated r) : Prop :=
  ∀ front, front <+: more.tokens → ¬Unfinished front →
    ∃ more' : Repeated r, more'.tokens = front ∧ more'.nesting ≤ more.nesting

/-- An operand and what follows it are cut in the operand or behind it. -/
theorem Derivation.Viable.append {r : Rank} {first : Derivation r.operand} {more : Repeated r}
    (hfirst : first.Viable) (hmore : more.Viable) {front : List Token}
    (h : front <+: first.tokens ++ more.tokens) (hne : front ≠ []) (hfinished : ¬Unfinished front) :
    ∃ (first' : Derivation r.operand) (more' : Repeated r),
      first'.tokens ++ more'.tokens = front ∧
        max first'.nesting more'.nesting ≤ max first.nesting more.nesting := by
  rcases isPrefix_append_iff.mp h with h | ⟨behind, hbehind, rfl⟩
  · obtain ⟨first', htokens, hnesting⟩ := hfirst front h hne hfinished
    refine ⟨first', .nil, ?_, ?_⟩
    · rw [htokens, Repeated.tokens, List.append_nil]
    · rw [Repeated.nesting]
      omega
  · have hback : ¬Unfinished behind := by
      by_cases hnil : behind = []
      · rw [hnil]
        exact not_unfinished_nil
      · rwa [← first.balanced.unfinished_append hnil]
    obtain ⟨more', htokens, hnesting⟩ := hmore behind hbehind hback
    refine ⟨first, more', ?_, ?_⟩
    · rw [htokens]
    · omega

mutual

theorem Derivation.viable : {p : Phrase} → (d : Derivation p) → d.Viable
  | _, .literal t hkind, front, h, hne, _ => by
    refine ⟨.literal t hkind, ?_, Nat.le_refl _⟩
    rcases List.prefix_cons_iff.mp h with rfl | ⟨inner, rfl, hinner⟩
    · exact absurd rfl hne
    · rw [List.prefix_nil.mp hinner]
      rfl
  | _, .group opening inner closing hopening hclosing, front, h, hne, hfinished => by
    rcases isPrefix_group h with rfl | ⟨inside, hinside, rfl⟩ | rfl
    · exact absurd rfl hne
    · have hnonneg := inner.balanced.nonneg inside hinside
      exact absurd (unfinished_opening hopening hnonneg) hfinished
    · exact ⟨.group opening inner closing hopening hclosing, rfl, Nat.le_refl _⟩
  | _, .applied t op operand hop, front, h, hne, hfinished => by
    rcases List.prefix_cons_iff.mp h with rfl | ⟨behind, rfl, hbehind⟩
    · exact absurd rfl hne
    · rw [unfinished_cons (unaryOperator?_awaitsOperand hop), not_or] at hfinished
      obtain ⟨operand', htokens, hnesting⟩ :=
        operand.viable behind hbehind hfinished.1 hfinished.2
      refine ⟨.applied t op operand' hop, ?_, Nat.succ_le_succ hnesting⟩
      rw [Derivation.tokens, htokens]
  | _, .primary d, front, h, hne, hfinished => by
    obtain ⟨d', htokens, hnesting⟩ := d.viable front h hne hfinished
    exact ⟨.primary d', htokens, hnesting⟩
  | _, .chain first more, front, h, hne, hfinished => by
    obtain ⟨first', more', htokens, hnesting⟩ :=
      first.viable.append more.viable h hne hfinished
    exact ⟨.chain first' more', htokens, hnesting⟩

theorem Repeated.viable : {r : Rank} → (more : Repeated r) → more.Viable
  | _, .nil, front, h, _ => ⟨.nil, (List.prefix_nil.mp h).symm, Nat.le_refl _⟩
  | _, .cons t op operand more hop, front, h, hfinished => by
    rcases List.prefix_cons_iff.mp h with rfl | ⟨behind, rfl, hbehind⟩
    · exact ⟨.nil, rfl, Nat.zero_le _⟩
    · rw [unfinished_cons (Rank.awaitsOperand hop), not_or] at hfinished
      obtain ⟨operand', more', htokens, hnesting⟩ :=
        operand.viable.append more.viable hbehind hfinished.1 hfinished.2
      refine ⟨.cons t op operand' more' hop, ?_, hnesting⟩
      rw [Repeated.tokens, htokens]

end

end Grammar

end Abacus
