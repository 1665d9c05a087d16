import Abacus.Proofs.Grammar.Literals

/-!
# Parsing agrees with the grammar

A parser *reads* a phrase when it takes exactly the derivations of the phrase off
the front of its tokens: what it accepts has a derivation, and whatever has one
it accepts and turns into the expression that the derivation denotes.  The main
facts are

* `Reads.chain`: operators between operands make a parser of the operands into
  one of the next looser rank;
* `unary_reads`: by induction on the nesting that is left, `Parse.unary` reads
  unary expressions that nest no deeper;
* `parseTokens_ok_iff`: the tokens before the first end of the input are parsed
  exactly when they have a derivation whose literals can be read.
-/

namespace Abacus

namespace Grammar

/-! ## Operators -/

section Operators

variable {t : Token}

theorem Rank.isLiteral_eq_false {r : Rank} {op : BinaryOp} (hop : r.operator? t.kind = some op) :
    isLiteral t.kind = false := by
  unfold Rank.operator? at hop
  split at hop <;> simp_all [isLiteral]

theorem unaryOperator?_isLiteral {op : UnaryOp} (hop : unaryOperator? t.kind = some op) :
    isLiteral t.kind = false := by
  unfold unaryOperator? at hop
  split at hop <;> simp_all [isLiteral]

theorem unaryOp?_eq : Parse.unaryOp? = unaryOperator? := rfl

/-- The levels of the parser are the ranks of the grammar. -/
theorem expression_eq (bound : Nat) (unary : List Token → Parse.Outcome) :
    Parse.expression bound unary =
      (Parse.chain bound Rank.or.operator? <| Parse.chain bound Rank.and.operator? <|
        Parse.chain bound Rank.equality.operator? <|
          Parse.chain bound Rank.comparison.operator? <|
            Parse.chain bound Rank.term.operator? <|
              Parse.chain bound Rank.factor.operator? unary) := by
  have hlevels : Parse.orLevel = Rank.or.operator? ∧ Parse.andLevel = Rank.and.operator? ∧
      Parse.equalityLevel = Rank.equality.operator? ∧
      Parse.comparisonLevel = Rank.comparison.operator? ∧
      Parse.termLevel = Rank.term.operator? ∧ Parse.factorLevel = Rank.factor.operator? := by
    refine ⟨?_, ?_, ?_, ?_, ?_, ?_⟩ <;> funext k <;>
      rcases k with _ | _ | _ | _ | _ | m | _ | _ <;> first | rfl | (cases m <;> rfl)
  obtain ⟨hor, hand, hequality, hcomparison, hterm, hfactor⟩ := hlevels
  rw [← hor, ← hand, ← hequality, ← hcomparison, ← hterm, ← hfactor]
  rfl

end Operators

/-! ## Admitted derivations -/

/-- The literals among the tokens of a derivation can be read, and its parts lie
under at most `n` parentheses and unary operators. -/
structure Admitted (source : Bytes) (n : Nat) (tokens : List Token) (nesting : Nat) : Prop where
  literals : ∀ t ∈ tokens, isLiteral t.kind = true → (readLeaf? source t).isSome = true
  depth : nesting ≤ n

section Admitted

variable {source : Bytes} {n i j : Nat} {t : Token} {ts front back : List Token}

theorem admitted_append :
    Admitted source n (front ++ back) (max i j) ↔
      Admitted source n front i ∧ Admitted source n back j := by
  constructor
  · rintro ⟨hliterals, hdepth⟩
    exact ⟨⟨fun t ht => hliterals t (List.mem_append_left _ ht), by omega⟩,
      ⟨fun t ht => hliterals t (List.mem_append_right _ ht), by omega⟩⟩
  · rintro ⟨hfront, hback⟩
    refine ⟨fun t ht => ?_, max_le hfront.depth hback.depth⟩
    obtain ht | ht := List.mem_append.mp ht
    · exact hfront.literals t ht
    · exact hback.literals t ht

/-- A token that is no literal is admitted alone. -/
theorem admitted_singleton (ht : isLiteral t.kind = false) : Admitted source n [t] 0 := by
  refine ⟨fun t' ht' hliteral => ?_, Nat.zero_le n⟩
  rw [List.mem_singleton.mp ht', ht] at hliteral
  contradiction

theorem admitted_cons (ht : isLiteral t.kind = false) :
    Admitted source n (t :: ts) i ↔ Admitted source n ts i := by
  have h : Admitted source n ([t] ++ ts) (max 0 i) ↔ _ := admitted_append
  rw [Nat.zero_max] at h
  exact h.trans (and_iff_right (admitted_singleton ht))

theorem admitted_concat (ht : isLiteral t.kind = false) :
    Admitted source n (ts ++ [t]) i ↔ Admitted source n ts i := by
  have h : Admitted source n (ts ++ [t]) (max i 0) ↔ _ := admitted_append
  rw [Nat.max_zero] at h
  exact h.trans (and_iff_left (admitted_singleton ht))

theorem admitted_succ : Admitted source (n + 1) ts (i + 1) ↔ Admitted source n ts i := by
  constructor
  · rintro ⟨hliterals, hdepth⟩
    exact ⟨hliterals, Nat.le_of_succ_le_succ hdepth⟩
  · rintro ⟨hliterals, hdepth⟩
    exact ⟨hliterals, Nat.succ_le_succ hdepth⟩

/-- Where something is enclosed, some nesting was left. -/
theorem Admitted.exists_eq_succ (h : Admitted source n ts (i + 1)) : ∃ m, n = m + 1 := by
  have hdepth : i + 1 ≤ n := h.depth
  exact ⟨n - 1, by omega⟩

theorem admitted_applied {op : UnaryOp} {operand : Derivation .unary}
    (hop : unaryOperator? t.kind = some op) :
    Admitted source (n + 1) (t :: operand.tokens) (operand.nesting + 1) ↔
      Admitted source n operand.tokens operand.nesting :=
  (admitted_cons (unaryOperator?_isLiteral hop)).trans admitted_succ

theorem admitted_group {opening closing : Token} {inner : Derivation .expression}
    (hopening : opening.kind = .mark .openParen) (hclosing : closing.kind = .mark .closeParen) :
    Admitted source (n + 1) (opening :: (inner.tokens ++ [closing])) (inner.nesting + 1) ↔
      Admitted source n inner.tokens inner.nesting := by
  rw [admitted_cons (by rw [hopening]; rfl), admitted_concat (by rw [hclosing]; rfl), admitted_succ]

end Admitted

/-! ## Chains of operands -/

/-- An admitted derivation of a phrase leads from the tokens `ts` to `rest` and
denotes `e`. -/
def Derives (source : Bytes) (p : Phrase) (n : Nat) (ts : List Token) (e : Expr)
    (rest : List Token) : Prop :=
  ∃ d : Derivation p, ts = d.tokens ++ rest ∧ Admitted source n d.tokens d.nesting ∧
    d.expr (readLeaf source) = e

/-- The parser takes exactly the admitted derivations of a phrase off the front
of at most `bound` tokens. -/
structure Reads (source : Bytes) (p : Phrase) (n bound : Nat)
    (parser : List Token → Parse.Outcome) : Prop where
  sound : ∀ {ts e rest}, parser ts = .ok (e, rest) → Derives source p n ts e rest
  complete : ∀ (d : Derivation p) {rest}, (d.tokens ++ rest).length ≤ bound → Closed p rest →
    Admitted source n d.tokens d.nesting →
      parser (d.tokens ++ rest) = .ok (d.expr (readLeaf source), rest)

namespace Reads

variable {source : Bytes} {r : Rank} {n bound : Nat} {operand : List Token → Parse.Outcome}

/-- Where the loop over operators stops, it has taken none. -/
theorem stop_sound {left e : Expr} {ts rest : List Token}
    (h : (.ok (left, ts) : Parse.Outcome) = .ok (e, rest)) :
    ∃ more : Repeated r, ts = more.tokens ++ rest ∧ Admitted source n more.tokens more.nesting ∧
      more.exprFrom (readLeaf source) left = e := by
  obtain ⟨rfl, rfl⟩ : left = e ∧ ts = rest := by simpa using h
  exact ⟨.nil, rfl, ⟨by simp [Repeated.tokens], Nat.zero_le n⟩, rfl⟩

/-- What the loop over operators accepts are operators and operands. -/
theorem chainFrom_sound (hoperand : Reads source r.operand n bound operand) {fuel : Nat}
    {left e : Expr} {ts rest : List Token}
    (h : Parse.chainFrom r.operator? operand fuel left ts = .ok (e, rest)) :
    ∃ more : Repeated r, ts = more.tokens ++ rest ∧ Admitted source n more.tokens more.nesting ∧
      more.exprFrom (readLeaf source) left = e := by
  induction fuel generalizing left ts with
  | zero => exact stop_sound h
  | succ fuel ih =>
    cases ts with
    | nil => exact stop_sound h
    | cons t ts =>
      unfold Parse.chainFrom at h
      split at h
      · exact stop_sound h
      · next op hop =>
        split at h
        · contradiction
        · next right behind hright =>
          obtain ⟨d, rfl, hd, rfl⟩ := hoperand.sound hright
          obtain ⟨more, rfl, hmore, rfl⟩ := ih h
          refine ⟨.cons t op d more hop, ?_, ?_, rfl⟩
          · simp [Repeated.tokens]
          · rw [Repeated.tokens, admitted_cons (Rank.isLiteral_eq_false hop)]
            exact admitted_append.mpr ⟨hd, hmore⟩

/-- The loop over operators takes all that can follow, when its bound does not
stop it. -/
theorem chainFrom_complete (hoperand : Reads source r.operand n bound operand) {fuel : Nat}
    {rest : List Token} (hrest : Closed (.chain r) rest) (more : Repeated r) (left : Expr)
    (hfuel : more.tokens.length ≤ fuel) (hbound : (more.tokens ++ rest).length ≤ bound)
    (hmore : Admitted source n more.tokens more.nesting) :
    Parse.chainFrom r.operator? operand fuel left (more.tokens ++ rest) =
      .ok (more.exprFrom (readLeaf source) left, rest) := by
  induction fuel generalizing left more with
  | zero =>
    cases more with
    | nil => rfl
    | cons t op d more hop => simp [Repeated.tokens] at hfuel
  | succ fuel ih =>
    cases more with
    | nil =>
      cases rest with
      | nil => rfl
      | cons t rest =>
        simp only [Repeated.tokens, List.nil_append, Parse.chainFrom, hrest.operator?_eq_none]
        rfl
    | cons t op d more hop =>
      -- Every round takes at least its operator, so the bound on tokens is enough.
      simp only [Repeated.tokens, List.length_append, List.length_cons] at hfuel hbound
      obtain ⟨hd, hmore⟩ := admitted_append.mp
        ((admitted_cons (Rank.isLiteral_eq_false hop)).mp hmore)
      have hright : operand (d.tokens ++ (more.tokens ++ rest)) =
          .ok (d.expr (readLeaf source), more.tokens ++ rest) :=
        hoperand.complete d (by simp; omega) (more.closed hrest) hd
      simp only [Repeated.tokens, List.cons_append, List.append_assoc, Parse.chainFrom, hop, hright]
      exact ih more _ (by omega) (by simp; omega) hmore

/-- A parser of operands and the loop over the operators of a rank read the
chains of that rank. -/
theorem chain (hoperand : Reads source r.operand n bound operand) :
    Reads source (.chain r) n bound (Parse.chain bound r.operator? operand) where
  sound := by
    intro ts e rest h
    unfold Parse.chain at h
    split at h
    · contradiction
    · next left behind hleft =>
      obtain ⟨first, rfl, hfirst, rfl⟩ := hoperand.sound hleft
      obtain ⟨more, rfl, hmore, rfl⟩ := hoperand.chainFrom_sound h
      refine ⟨.chain first more, ?_, ?_, rfl⟩
      · simp [Derivation.tokens]
      · exact admitted_append.mpr ⟨hfirst, hmore⟩
  complete := by
    intro d rest hbound hrest hd
    cases d with
    | chain first more =>
      obtain ⟨hfirst, hmore⟩ := admitted_append.mp hd
      simp only [Derivation.tokens, List.append_assoc, List.length_append] at hbound ⊢
      have hleft : operand (first.tokens ++ (more.tokens ++ rest)) =
          .ok (first.expr (readLeaf source), more.tokens ++ rest) :=
        hoperand.complete first (by simp; omega) (more.closed hrest) hfirst
      simp only [Parse.chain, hleft]
      exact hoperand.chainFrom_complete hrest more _ (by omega) (by simp; omega) hmore

theorem expression {unary : List Token → Parse.Outcome}
    (hunary : Reads source .unary n bound unary) :
    Reads source .expression n bound (Parse.expression bound unary) := by
  have hfactor : Reads source (.chain .factor) n bound _ := hunary.chain
  have hterm : Reads source (.chain .term) n bound _ := hfactor.chain
  have hcomparison : Reads source (.chain .comparison) n bound _ := hterm.chain
  have hequality : Reads source (.chain .equality) n bound _ := hcomparison.chain
  have hand : Reads source (.chain .and) n bound _ := hequality.chain
  rw [expression_eq]
  exact hand.chain

end Reads

/-! ## Unary expressions and groups -/

section Unary

variable {input : Parse.Input} {n : Nat}

theorem close_ok_iff (hfinal : input.final.kind = .endOfInput) {opening : Span} {inner e : Expr}
    {ts rest : List Token} :
    Parse.close input opening inner ts = .ok (e, rest) ↔
      inner = e ∧ ∃ closing : Token, closing.kind = .mark .closeParen ∧ ts = closing :: rest := by
  unfold Parse.close Parse.Input.next
  cases ts with
  | nil => simp [hfinal]
  | cons t ts =>
    by_cases hclosing : t.kind = .mark .closeParen
    · simp [hclosing]
    · simp [hclosing]

/-- A literal is read as a primary expression, whatever nesting is left. -/
theorem literal_sound (hfinal : input.final.kind = .endOfInput) {ts rest : List Token} {e : Expr}
    (h : Parse.literal input ts = .ok (e, rest)) :
    Derives input.source .unary n ts e rest := by
  cases ts with
  | nil => exact absurd h (literal_nil_ne_ok hfinal)
  | cons t ts =>
    obtain ⟨hleaf, rfl⟩ := literal_cons_ok_iff.mp h
    refine ⟨.primary (.literal t (isLiteral_of_readLeaf? hleaf)), rfl, ⟨?_, Nat.zero_le n⟩, ?_⟩
    · simp [Derivation.tokens, hleaf]
    · simp [Derivation.expr, readLeaf, hleaf]

/-- A parser with no nesting left, or over one that reads with one level less,
accepts only unary expressions. -/
theorem unary_sound (hfinal : input.final.kind = .endOfInput)
    (hinner : ∀ m, n = m + 1 → Reads input.source .unary m input.bound (Parse.unary input m))
    {ts rest : List Token} {e : Expr} (h : Parse.unary input n ts = .ok (e, rest)) :
    Derives input.source .unary n ts e rest := by
  unfold Parse.unary at h
  split at h
  · exact literal_sound hfinal h
  · next t ts =>
    split at h
    · next op hop =>
      rw [unaryOp?_eq] at hop
      split at h
      · contradiction
      · next m =>
        split at h
        · contradiction
        · next operand behind hoperand =>
          obtain ⟨rfl, rfl⟩ : _ = e ∧ behind = rest := by simpa using h
          obtain ⟨d, rfl, hd, rfl⟩ := (hinner m rfl).sound hoperand
          exact ⟨.applied t op d hop, rfl, (admitted_applied hop).mpr hd, rfl⟩
    · split at h
      · next hopening =>
        split at h
        · contradiction
        · next m =>
          split at h
          · contradiction
          · next inner behind hexpression =>
            obtain ⟨rfl, closing, hclosing, rfl⟩ := (close_ok_iff hfinal).mp h
            obtain ⟨d, rfl, hd, rfl⟩ := (hinner m rfl).expression.sound hexpression
            refine ⟨.primary (.group t d closing hopening hclosing), ?_, ?_, rfl⟩
            · simp [Derivation.tokens]
            · exact (admitted_group hopening hclosing).mpr hd
      · exact literal_sound hfinal h

theorem literal_complete {t : Token} (ht : isLiteral t.kind = true)
    (hread : (readLeaf? input.source t).isSome = true) (rest : List Token) :
    Parse.unary input n (t :: rest) = .ok (readLeaf input.source t, rest) := by
  have hop : Parse.unaryOp? t.kind = none := by
    cases hop : Parse.unaryOp? t.kind with
    | none => rfl
    | some op => rw [unaryOperator?_isLiteral hop] at ht; contradiction
  have hparen : t.kind ≠ .mark .openParen := by
    intro hkind
    rw [hkind] at ht
    contradiction
  obtain ⟨e, he⟩ := Option.isSome_iff_exists.mp hread
  have hleaf : readLeaf input.source t = e := by simp [readLeaf, he]
  unfold Parse.unary
  simp only [hop, if_neg hparen, hleaf]
  exact literal_cons_ok_iff.mpr ⟨he, rfl⟩

/-- A parser over one that reads with one level of nesting less accepts every
admitted unary expression. -/
theorem unary_complete (hfinal : input.final.kind = .endOfInput)
    (hinner : ∀ m, n = m + 1 → Reads input.source .unary m input.bound (Parse.unary input m))
    (d : Derivation .unary) {rest : List Token} (hbound : (d.tokens ++ rest).length ≤ input.bound)
    (hd : Admitted input.source n d.tokens d.nesting) :
    Parse.unary input n (d.tokens ++ rest) = .ok (d.expr (readLeaf input.source), rest) := by
  cases d with
  | applied t op operand hop =>
    obtain ⟨m, rfl⟩ := Admitted.exists_eq_succ hd
    have hop' : Parse.unaryOp? t.kind = some op := hop
    simp only [Derivation.tokens, List.cons_append, List.length_cons] at hbound ⊢
    have hoperand : Parse.unary input m (operand.tokens ++ rest) =
        .ok (operand.expr (readLeaf input.source), rest) :=
      (hinner m rfl).complete operand (by omega) closed_unary ((admitted_applied hop).mp hd)
    unfold Parse.unary
    simp only [hop', hoperand]
    rfl
  | primary d =>
    cases d with
    | literal t hkind =>
      have hread := hd.literals t (by simp [Derivation.tokens]) hkind
      exact literal_complete hkind hread rest
    | group opening inner closing hopening hclosing =>
      obtain ⟨m, rfl⟩ := Admitted.exists_eq_succ hd
      have hop : Parse.unaryOp? opening.kind = none := by rw [hopening]; rfl
      simp only [Derivation.tokens, List.cons_append, List.append_assoc, List.nil_append,
        List.length_cons] at hbound ⊢
      have hexpression : Parse.expression input.bound (Parse.unary input m)
          (inner.tokens ++ closing :: rest) =
            .ok (inner.expr (readLeaf input.source), closing :: rest) :=
        (hinner m rfl).expression.complete inner (by omega) (closed_closeParen hclosing)
          ((admitted_group hopening hclosing).mp hd)
      unfold Parse.unary
      simp only [hop, if_pos hopening, hexpression]
      exact (close_ok_iff hfinal).mpr ⟨rfl, closing, hclosing, rfl⟩

theorem reads_of_inner (hfinal : input.final.kind = .endOfInput)
    (hinner : ∀ m, n = m + 1 → Reads input.source .unary m input.bound (Parse.unary input m)) :
    Reads input.source .unary n input.bound (Parse.unary input n) where
  sound := unary_sound hfinal hinner
  complete := fun d _ hbound _ hd => unary_complete hfinal hinner d hbound hd

/-- `Parse.unary` reads the unary expressions that nest no deeper than it may. -/
theorem unary_reads (hfinal : input.final.kind = .endOfInput) (n : Nat) :
    Reads input.source .unary n input.bound (Parse.unary input n) := by
  -- Both operators and parentheses hand one level less to what they enclose, so
  -- the induction is on the levels and not on the tokens.
  induction n with
  | zero =>
    exact reads_of_inner hfinal fun m hm => by omega
  | succ n ih =>
    refine reads_of_inner hfinal fun m hm => ?_
    obtain rfl : n = m := by omega
    exact ih

end Unary

/-! ## Whole inputs -/

/-- The tokens before the first end of the input. -/
def beforeEnd (tokens : List Token) : List Token :=
  tokens.takeWhile fun t => t.kind ≠ .endOfInput

section Inputs

variable (source : Bytes) (tokens : List Token)

theorem beforeEnd_concat {t : Token} (ht : t.kind = .endOfInput) :
    beforeEnd (tokens ++ [t]) = beforeEnd tokens := by
  induction tokens with
  | nil => simp [beforeEnd, ht]
  | cons t' tokens ih =>
    unfold beforeEnd at ih ⊢
    rw [List.cons_append, List.takeWhile_cons, List.takeWhile_cons, ih]

/-- Behind the tokens before the end stands the end. -/
theorem final_kind (final : Token) (hfinal : final.kind = .endOfInput) :
    ((tokens.drop (beforeEnd tokens).length).headD final).kind = .endOfInput := by
  induction tokens with
  | nil => exact hfinal
  | cons t tokens ih =>
    by_cases ht : t.kind = .endOfInput
    · simp [beforeEnd, ht]
    · simpa [beforeEnd, ht] using ih

theorem inputOf_snd : (Parse.inputOf source tokens).2 = beforeEnd tokens := by
  unfold Parse.inputOf
  simp only
  split
  · rfl
  · exact beforeEnd_concat tokens rfl

theorem inputOf_final : (Parse.inputOf source tokens).1.final.kind = .endOfInput := by
  unfold Parse.inputOf
  exact final_kind _ _ rfl

theorem inputOf_bound : (Parse.inputOf source tokens).1.bound = (beforeEnd tokens).length := by
  rw [← inputOf_snd source tokens]
  rfl

/-- The parser accepts the tokens before the end exactly when they have a
derivation whose literals can be read and which does not nest too deep. -/
theorem parseTokens_ok_iff (e : Expr) :
    parseTokens source tokens = .ok e ↔
      ∃ d : Derivation .expression, d.tokens = beforeEnd tokens ∧
        Admitted source maxNesting d.tokens d.nesting ∧ d.expr (readLeaf source) = e := by
  have hreads : Reads source .expression maxNesting (beforeEnd tokens).length
      (Parse.expression (Parse.inputOf source tokens).1.bound
        (Parse.unary (Parse.inputOf source tokens).1 maxNesting)) := by
    have hunary := unary_reads (inputOf_final source tokens) maxNesting
    rw [← inputOf_bound source]
    exact hunary.expression
  unfold parseTokens
  simp only [inputOf_snd]
  constructor
  · intro h
    split at h
    · contradiction
    · next e' hparse =>
      obtain rfl : e' = e := by simpa using h
      obtain ⟨d, htokens, hd, hexpr⟩ := hreads.sound hparse
      exact ⟨d, by simpa using htokens.symm, hd, hexpr⟩
    · contradiction
  · rintro ⟨d, htokens, hd, rfl⟩
    have hparse := hreads.complete d (by simp [htokens]) closed_nil hd
    rw [List.append_nil, htokens] at hparse
    rw [hparse]

end Inputs

/-! ## The language of the parser -/

section Language

variable {source : Bytes} {n i : Nat} {ts : List Token}

/-- On texts of numbers, the literals that can be read are those in range. -/
theorem admitted_iff (htexts : ∀ t ∈ ts, HasNumberText source t) :
    Admitted source n ts i ↔ (∀ t ∈ ts, InRange source t) ∧ i ≤ n := by
  constructor
  · rintro ⟨hliterals, hdepth⟩
    refine ⟨fun t ht => ?_, hdepth⟩
    by_cases hkind : isLiteral t.kind = true
    · obtain ⟨e, he⟩ := Option.isSome_iff_exists.mp (hliterals t ht hkind)
      exact ((readLeaf?_eq_some_iff (htexts t ht) hkind).mp he).1
    · exact inRange_of_not_isLiteral hkind
  · rintro ⟨hrange, hdepth⟩
    refine ⟨fun t ht hkind => ?_, hdepth⟩
    rw [(readLeaf?_eq_some_iff (htexts t ht) hkind).mpr ⟨hrange t ht, rfl⟩]
    rfl

/-- A derivation of texts of numbers in range denotes what the parser reads. -/
theorem expr_readLeaf {p : Phrase} (d : Derivation p)
    (htexts : ∀ t ∈ d.tokens, HasNumberText source t) (hrange : ∀ t ∈ d.tokens, InRange source t) :
    d.expr (readLeaf source) = d.expr (leafOf source) := by
  refine d.expr_congr fun t ht hkind => ?_
  unfold readLeaf
  rw [(readLeaf?_eq_some_iff (htexts t ht) hkind).mpr ⟨hrange t ht, rfl⟩]
  rfl

/-- A list of tokens is derived in one way at most. -/
theorem derivation_unique {p : Phrase} (d d' : Derivation p) (h : d.tokens = d'.tokens) :
    d = d' := by
  have hend : d.tokens ++ [] = d'.tokens ++ [] := by rw [h]
  exact (d.unambiguous d' closed_nil closed_nil hend).1

/-- On tokens whose literals have the form of numbers, the parser accepts exactly
the grammar: the tokens before the first end have a derivation, which is the only
one, its literals are in range, and nothing lies under more than a thousand
parentheses and unary operators.  It gives the expression of that derivation. -/
theorem parseTokens_ok_iff_derivation (source : Bytes) (tokens : List Token)
    (htexts : ∀ t ∈ tokens, HasNumberText source t) (e : Expr) :
    parseTokens source tokens = .ok e ↔
      ∃ d : Derivation .expression, d.tokens = beforeEnd tokens ∧
        (∀ d' : Derivation .expression, d'.tokens = beforeEnd tokens → d' = d) ∧
        (∀ t ∈ d.tokens, InRange source t) ∧ d.nesting ≤ 1000 ∧
        d.expr (leafOf source) = e := by
  have hbefore : ∀ d : Derivation .expression, d.tokens = beforeEnd tokens →
      ∀ t ∈ d.tokens, HasNumberText source t := by
    intro d htokens t ht
    rw [htokens] at ht
    exact htexts t ((List.takeWhile_sublist _).subset ht)
  rw [parseTokens_ok_iff]
  constructor
  · rintro ⟨d, htokens, hd, rfl⟩
    obtain ⟨hrange, hdepth⟩ := (admitted_iff (hbefore d htokens)).mp hd
    refine ⟨d, htokens, ?_, hrange, hdepth, ?_⟩
    · intro d' htokens'
      exact derivation_unique d' d (htokens'.trans htokens.symm)
    · exact (expr_readLeaf d (hbefore d htokens) hrange).symm
  · rintro ⟨d, htokens, -, hrange, hdepth, rfl⟩
    refine ⟨d, htokens, ?_, ?_⟩
    · exact (admitted_iff (hbefore d htokens)).mpr ⟨hrange, hdepth⟩
    · exact expr_readLeaf d (hbefore d htokens) hrange

/-- The tokens of `2.5*(1-3)`, with no end behind them. -/
theorem parseTokens_ok_iff_derivation_product :
    let source := utf8 "2.5*(1-3)"
    let tokens : List Token :=
      [⟨.float, ⟨0, 3⟩⟩, ⟨.mark .star, ⟨3, 4⟩⟩, ⟨.mark .openParen, ⟨4, 5⟩⟩, ⟨.integer, ⟨5, 6⟩⟩,
       ⟨.mark .minus, ⟨6, 7⟩⟩, ⟨.integer, ⟨7, 8⟩⟩, ⟨.mark .closeParen, ⟨8, 9⟩⟩]
    let e : Expr := .joined .mul ⟨3, 4⟩ (.ofFloat ⟨0x40200000⟩ ⟨0, 3⟩)
      (.joined .sub ⟨6, 7⟩ (.ofInt 1 ⟨5, 6⟩) (.ofInt 3 ⟨7, 8⟩))
    (∀ t ∈ tokens, HasNumberText source t) ∧ parseTokens source tokens = .ok e ∧
      ∃ d : Derivation .expression, d.tokens = tokens ∧ d.nesting ≤ 1000 ∧
        d.expr (leafOf source) = e := by
  intro source tokens e
  have htexts : ∀ t ∈ tokens, HasNumberText source t := by
    have hdecimal : IsDecimal [0x32, 0x2e, 0x35] :=
      ⟨[0x32], [0x35], by decide, by decide, rfl⟩
    have hone : IsNumeral [0x31] := by decide
    have hthree : IsNumeral [0x33] := by decide
    simp only [tokens, List.forall_mem_cons]
    exact ⟨hdecimal, trivial, trivial, hone, trivial, hthree, trivial, by simp⟩
  have hparse : parseTokens source tokens = .ok e := by decide +kernel
  obtain ⟨d, htokens, -, -, hdepth, hexpr⟩ :=
    (parseTokens_ok_iff_derivation source tokens htexts e).mp hparse
  exact ⟨htexts, hparse, d, htokens, hdepth, hexpr⟩

end Language

end Grammar

end Abacus
