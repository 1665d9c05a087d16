import Mathlib.Data.List.TakeWhile
import Abacus.Proofs.Typing.Stopping

/-!
# Nesting bounds the stack

While an expression is evaluated, a value waits on the stack for each operator whose
right operand is being evaluated.  A chain of operators groups to the left, so however
long it is, only one of its values waits.  From a phrase down to a primary expression
there are as many chains as there are ranks from the phrase on, and only a parenthesis
leads back to the first of them.

`Phrase.room` counts this: six values for each parenthesis or unary operator, one for
each rank that is left, and one for the innermost value.  `Derivation.need_expr_le` says
that no expression of the phrase needs more, and `exists_need_eq_room` that some parsed
expression needs as much.  The nesting that the parser allows then bounds the stack of
every program.
-/

namespace Abacus

namespace Grammar

/-- How many values the stack can hold for a phrase whose parts lie under at most
`nesting` parentheses and unary operators. -/
def Phrase.room (p : Phrase) (nesting : Nat) : Nat :=
  6 * nesting + (6 - p.level) + 1

theorem Rank.room_chain (r : Rank) (nesting : Nat) :
    (Phrase.chain r).room nesting = r.operand.room nesting + 1 := by
  have hlt := r.level_lt
  have hoperand := r.level_operand
  simp only [Phrase.room, Phrase.level] at *
  omega

theorem Phrase.room_mono (p : Phrase) {m n : Nat} (h : m ≤ n) : p.room m ≤ p.room n := by
  unfold Phrase.room
  omega

theorem need_readLeaf (source : Bytes) (t : Token) : (readLeaf source t).need = 1 := by
  unfold readLeaf readLeaf?
  split
  · cases readInt32? (t.text source) <;> rfl
  · cases (readFloat (t.text source)).toOption <;> rfl
  · rfl
  · rfl
  · rfl

mutual

/-- An expression needs no more than there is room for by its phrase and its nesting. -/
theorem Derivation.need_expr_le {leaf : Token → Expr} (hleaf : ∀ t, (leaf t).need = 1) :
    {p : Phrase} → (d : Derivation p) → (d.expr leaf).need ≤ p.room d.nesting
  | _, .literal t _ => by
    show (leaf t).need ≤ 1
    rw [hleaf]
  | _, .group _ inner _ _ _ => by
    have hinner : (inner.expr leaf).need ≤ 6 * inner.nesting + 6 + 1 := inner.need_expr_le hleaf
    -- The nesting that the parentheses add is room for the six ranks inside them.
    show (inner.expr leaf).need ≤ 6 * (inner.nesting + 1) + 0 + 1
    omega
  | _, .applied t op operand _ => by
    have hoperand : (operand.expr leaf).need ≤ _ := operand.need_expr_le hleaf
    exact hoperand.trans (Phrase.room_mono _ (Nat.le_succ _))
  | _, .primary d => d.need_expr_le hleaf
  | _, .chain (r := r) first more => by
    have hfirst : (first.expr leaf).need ≤ _ := first.need_expr_le hleaf
    apply more.need_exprFrom_le hleaf _ (Nat.le_max_right first.nesting more.nesting)
    rw [r.room_chain]
    exact Nat.le_succ_of_le (hfirst.trans (Phrase.room_mono _ (Nat.le_max_left _ _)))

/-- Operands that follow a chain do not make it need more than one operand in its right
hand does: the values before it have become one. -/
theorem Repeated.need_exprFrom_le {leaf : Token → Expr} (hleaf : ∀ t, (leaf t).need = 1) :
    {r : Rank} → (more : Repeated r) → {left : Expr} → {nesting : Nat} →
      left.need ≤ (Phrase.chain r).room nesting → more.nesting ≤ nesting →
        (more.exprFrom leaf left).need ≤ (Phrase.chain r).room nesting
  | _, .nil, _, _, hleft, _ => hleft
  | r, .cons t op operand more _, left, nesting, hleft, hnesting => by
    have hbound := Nat.max_le.mp hnesting
    have hoperand : (operand.expr leaf).need ≤ r.operand.room nesting :=
      (operand.need_expr_le hleaf).trans (Phrase.room_mono _ hbound.1)
    apply more.need_exprFrom_le hleaf _ hbound.2
    -- The chain so far and this operand become the left side of what follows.
    show max left.need (1 + (operand.expr leaf).need) ≤ _
    rw [r.room_chain] at hleft ⊢
    omega

end

/-- What is parsed nests no deeper than the parser allows, and needs no more than there
is room for at that nesting. -/
theorem need_le_room {source : Bytes} {e : Expr} (hparse : parse source = .ok e) :
    e.need ≤ Phrase.expression.room maxNesting := by
  obtain ⟨d, -, hd, rfl⟩ := (parseTokens_ok_iff source (scan source).tokens e).mp hparse
  have hneed := d.need_expr_le (need_readLeaf source)
  exact hneed.trans (Phrase.room_mono _ hd.depth)

/-! ## The bound is attained -/

/-- Phrases are built from the tightest to the loosest. -/
theorem Phrase.tightest_induction {motive : Phrase → Prop} (primary : motive .primary)
    (unary : motive .primary → motive .unary)
    (chain : ∀ r : Rank, motive r.operand → motive (.chain r)) (p : Phrase) : motive p := by
  have hfactor := chain .factor (unary primary)
  have hterm := chain .term hfactor
  have hcomparison := chain .comparison hterm
  have hequality := chain .equality hcomparison
  have hand := chain .and hequality
  cases p with
  | primary => exact primary
  | unary => exact unary primary
  | chain r =>
    cases r with
    | or => exact chain .or hand
    | and => exact hand
    | equality => exact hequality
    | comparison => exact hcomparison
    | term => exact hterm
    | factor => exact hfactor

/-- Derivations of the same tokens, perhaps as other phrases, that nest alike and denote the
same. -/
structure Derivation.SameAs {p q : Phrase} (d : Derivation p) (d' : Derivation q) : Prop where
  tokens : d.tokens = d'.tokens
  nesting : d.nesting = d'.nesting
  expr : ∀ leaf, d.expr leaf = d'.expr leaf

theorem Derivation.SameAs.trans {p q r : Phrase} {d : Derivation p} {d' : Derivation q}
    {d'' : Derivation r} (h : d.SameAs d') (h' : d'.SameAs d'') : d.SameAs d'' :=
  ⟨h.tokens.trans h'.tokens, h.nesting.trans h'.nesting,
    fun leaf => (h.expr leaf).trans (h'.expr leaf)⟩

/-- An operand alone is a chain. -/
theorem Derivation.sameAs_chain {r : Rank} (d : Derivation r.operand) :
    (Derivation.chain d .nil).SameAs d := by
  refine ⟨?_, ?_, fun _ => rfl⟩
  · rw [Derivation.tokens, Repeated.tokens, List.append_nil]
  · rw [Derivation.nesting, Repeated.nesting, Nat.max_zero]

/-- A primary expression is a phrase of every kind. -/
theorem Derivation.exists_sameAs (d : Derivation .primary) (p : Phrase) :
    ∃ c : Derivation p, c.SameAs d := by
  induction p using Phrase.tightest_induction with
  | primary => exact ⟨d, rfl, rfl, fun _ => rfl⟩
  | unary => exact ⟨.primary d, rfl, rfl, fun _ => rfl⟩
  | chain r ih =>
    obtain ⟨c, hc⟩ := ih
    exact ⟨.chain c .nil, c.sameAs_chain.trans hc⟩

/-- A token that is neither a number nor the end of the input. -/
def Plain (t : Token) : Prop :=
  t.kind ≠ .integer ∧ t.kind ≠ .float ∧ t.kind ≠ .endOfInput

/-- A derivation without numbers whose expression needs all the room that there is. -/
structure Derivation.Fills {p : Phrase} (d : Derivation p) (nesting : Nat) : Prop where
  nesting_eq : d.nesting = nesting
  plain : ∀ t ∈ d.tokens, Plain t
  need_eq : ∀ leaf : Token → Expr, (∀ t, (leaf t).need = 1) → (d.expr leaf).need = p.room nesting

theorem Rank.exists_operator (r : Rank) :
    ∃ t op, r.operator? (Token.kind t) = some op ∧ Plain t := by
  cases r with
  | or => exact ⟨⟨.mark .pipePipe, ⟨0, 0⟩⟩, .or, rfl, by simp [Plain]⟩
  | and => exact ⟨⟨.mark .ampAmp, ⟨0, 0⟩⟩, .and, rfl, by simp [Plain]⟩
  | equality => exact ⟨⟨.mark .equalEqual, ⟨0, 0⟩⟩, .equal, rfl, by simp [Plain]⟩
  | comparison => exact ⟨⟨.mark .less, ⟨0, 0⟩⟩, .less, rfl, by simp [Plain]⟩
  | term => exact ⟨⟨.mark .plus, ⟨0, 0⟩⟩, .add, rfl, by simp [Plain]⟩
  | factor => exact ⟨⟨.mark .star, ⟨0, 0⟩⟩, .mul, rfl, by simp [Plain]⟩

/-- Every phrase can be a single literal. -/
theorem Phrase.exists_literal {t : Token} (hkind : isLiteral t.kind = true) (p : Phrase) :
    ∃ d : Derivation p, d.nesting = 0 ∧ d.tokens = [t] ∧ ∀ leaf, d.expr leaf = leaf t := by
  obtain ⟨d, hd⟩ := (Derivation.literal t hkind).exists_sameAs p
  exact ⟨d, hd.nesting, hd.tokens, hd.expr⟩

/-- An operand that fills its room fills, in the right hand of an operator, the room of
the chain. -/
theorem Rank.exists_fills {r : Rank} {d : Derivation r.operand} {nesting : Nat}
    (h : d.Fills nesting) : ∃ c : Derivation (.chain r), c.Fills nesting := by
  have hkind : isLiteral (.word .true) = true := rfl
  obtain ⟨first, hzero, htokens, hexpr⟩ :=
    r.operand.exists_literal (t := ⟨.word .true, ⟨0, 0⟩⟩) hkind
  obtain ⟨t, op, hop, hplain⟩ := r.exists_operator
  refine ⟨.chain first (.cons t op d .nil hop), ?_, ?_, ?_⟩
  · simp [Derivation.nesting, Repeated.nesting, hzero, h.nesting_eq]
  · intro u hu
    simp only [Derivation.tokens, Repeated.tokens, htokens, List.append_nil, List.singleton_append,
      List.mem_cons] at hu
    rcases hu with rfl | rfl | hu
    · simp [Plain]
    · exact hplain
    · exact h.plain u hu
  · intro leaf hleaf
    show max (first.expr leaf).need (1 + (d.expr leaf).need) = _
    rw [hexpr, hleaf, h.need_eq leaf hleaf, r.room_chain]
    omega

/-- Where a primary expression fills its room, every phrase does: with an operator in each
of its ranks. -/
theorem Derivation.Fills.exists_fills {d : Derivation .primary} {nesting : Nat}
    (h : d.Fills nesting) (p : Phrase) : ∃ d : Derivation p, d.Fills nesting := by
  induction p using Phrase.tightest_induction with
  | primary => exact ⟨d, h⟩
  | unary => exact ⟨.primary d, h.nesting_eq, h.plain, h.need_eq⟩
  | chain r ih =>
    obtain ⟨operand, hoperand⟩ := ih
    exact Rank.exists_fills hoperand

/-- At every nesting some primary expression fills its room: another parenthesis around
one that fills the room of an expression. -/
theorem exists_fills_primary (nesting : Nat) :
    ∃ d : Derivation .primary, d.Fills nesting := by
  induction nesting with
  | zero =>
    refine ⟨.literal ⟨.word .true, ⟨0, 0⟩⟩ rfl, rfl, ?_, fun leaf hleaf => hleaf _⟩
    simp [Derivation.tokens, Plain]
  | succ nesting ih =>
    obtain ⟨d, hd⟩ := ih
    obtain ⟨inner, hnesting, hplain, hneed⟩ := hd.exists_fills .expression
    refine ⟨.group ⟨.mark .openParen, ⟨0, 0⟩⟩ inner ⟨.mark .closeParen, ⟨0, 0⟩⟩ rfl rfl,
      congrArg (· + 1) hnesting, ?_, hneed⟩
    intro t ht
    simp only [Derivation.tokens, List.mem_cons, List.mem_append, List.not_mem_nil,
      or_false] at ht
    rcases ht with rfl | ht | rfl
    · simp [Plain]
    · exact hplain t ht
    · simp [Plain]

/-- The parser accepts tokens whose expression needs all the room that their nesting
gives, up to the deepest one allowed. -/
theorem exists_need_eq_room (source : Bytes) {nesting : Nat} (hdepth : nesting ≤ maxNesting) :
    ∃ tokens e, parseTokens source tokens = .ok e ∧
      e.need = Phrase.expression.room nesting := by
  obtain ⟨primary, hprimary⟩ := exists_fills_primary nesting
  obtain ⟨d, hnesting, hplain, hneed⟩ := hprimary.exists_fills .expression
  have hbefore : beforeEnd d.tokens = d.tokens := by
    rw [beforeEnd, List.takeWhile_eq_self_iff]
    intro t ht
    simpa using (hplain t ht).2.2
  have hread : ∀ t ∈ d.tokens, isLiteral t.kind = true → (readLeaf? source t).isSome = true := by
    intro t ht hkind
    obtain ⟨hint, hfloat, -⟩ := hplain t ht
    unfold isLiteral at hkind
    unfold readLeaf?
    split at hkind <;> simp_all
  refine ⟨d.tokens, d.expr (readLeaf source), ?_, hneed _ (need_readLeaf source)⟩
  rw [parseTokens_ok_iff]
  exact ⟨d, hbefore.symm, ⟨hread, hnesting ▸ hdepth⟩, rfl⟩

end Grammar

/-! ## Programs -/

/-- With room for what the expression needs, its code does not find the stack full. -/
theorem Expr.Generated.cause_ne_stackOverflow {e : Expr} {c : Chunk} {k : Kind} {m : Machine}
    {f : RuntimeFault} (hc : e.Generated c) (hkind : e.typeOf = .ok k)
    (hleaves : e.ProperLeaves) (hroom : e.need ≤ m.capacity)
    (hresult : (m.execute c).1.result = .error f) (depth : Nat) :
    f.cause ≠ .stackOverflow depth := by
  have hrun := Expr.execute_generated hleaves hc m
  rw [Expr.evalOn_eq_eval (by omega), hresult] at hrun
  have hyields := Expr.eval_of_typeOf hkind
  cases heval : e.eval with
  | ok v =>
    rw [heval] at hrun
    cases hrun
  | error g =>
    rw [heval] at hrun hyields
    cases hrun
    intro hfull
    rw [show g.cause = .divisionByZero from hyields] at hfull
    cases hfull

/-- However long a program is, it needs no more stack than the nesting of its source
allows for, and a stack of that size is never full. -/
theorem need_le_of_parse (source : Bytes) :
    (∀ e, parse source = .ok e → e.need ≤ 6 * (maxNesting + 1) + 1) ∧
      6 * (maxNesting + 1) + 1 = 6007 ∧
      ∀ limits p, compile source limits = .ok p → ∀ m : Machine, 6007 ≤ m.capacity →
        ∀ f, (m.execute p.chunk).1.result = .error f → ∀ depth, f.cause ≠ .stackOverflow depth := by
  refine ⟨fun e hparse => Grammar.need_le_room hparse, rfl, ?_⟩
  intro limits p hcompile m hcapacity f hresult depth
  obtain ⟨e, hparse, hkind, hgenerate⟩ := stages_of_compile hcompile
  have hneed : e.need ≤ 6007 := Grammar.need_le_room hparse
  have hc : e.Generated p.chunk := Expr.generated_of_generate hgenerate
  exact hc.cause_ne_stackOverflow hkind (properLeaves_of_parseTokens hparse) (by omega)
    hresult depth

/-- The expression `1+2/(3*(4-4))` needs five places, and stops at its division. -/
theorem need_le_of_parse_nested :
    let source := utf8 "1+2/(3*(4-4))"
    let m : Machine := Machine.withDepth 6007
    let f : RuntimeFault := ⟨0x53, 12, .divisionByZero⟩
    ∃ e p, parse source = .ok e ∧ e.need = 5 ∧ e.need ≤ 6 * (maxNesting + 1) + 1 ∧
      compile source {} = .ok p ∧ 6007 ≤ m.capacity ∧ (m.execute p.chunk).1.result = .error f ∧
      ∀ depth, f.cause ≠ .stackOverflow depth := by
  intro source m f
  have hcompiled : (compile source {}).isOk = true := by decide +kernel
  obtain ⟨p, hcompile⟩ := exists_eq_ok hcompiled
  obtain ⟨e, hparse, -, -⟩ := stages_of_compile hcompile
  have hneed : (parse source).toOption.map Expr.need = some 5 := by decide +kernel
  rw [hparse] at hneed
  have hcapacity : 6007 ≤ m.capacity := by decide +kernel
  have hresult : (compile source {}).toOption.map (fun p => (m.execute p.chunk).1.result) =
      some (.error f) := by decide +kernel
  rw [hcompile] at hresult
  have hresult : (m.execute p.chunk).1.result = .error f := by simpa using hresult
  obtain ⟨hbound, -, hroom⟩ := need_le_of_parse source
  exact ⟨e, p, hparse, by simpa using hneed, hbound e hparse, hcompile, hcapacity, hresult,
    hroom {} p hcompile m hcapacity f hresult⟩

end Abacus
