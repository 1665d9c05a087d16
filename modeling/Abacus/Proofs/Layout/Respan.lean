import Abacus.Machine.Fingerprint
import Abacus.Proofs.Generate.Code
import Abacus.Proofs.Scan.Munch
import Abacus.Proofs.Tree.Growing
import Abacus.Proofs.Typing.Sweep
import Mathlib.Data.List.Forall2

/-!
# Compiling does not look at spans

Two texts are compiled side by side.  Their tokens have the same kinds and texts,
and their spans are related by some `R`, of which only `KeptByCover` is known.
Then every stage does the same on both: it fails with the same message at related
spans, or gives results that differ in their spans only (`compile_alike`).

`Agree` says this of two computations.  There is one lemma for each function on
the way, and each of them follows the recursion of its function.
-/

namespace Abacus

/-! ## Computations side by side -/

/-- Two computations fail alike, or their results are alike. -/
inductive Agree {ε ε' α α' : Type} (E : ε → ε' → Prop) (A : α → α' → Prop) :
    Except ε α → Except ε' α' → Prop where
  | error {f : ε} {f' : ε'} (h : E f f') : Agree E A (.error f) (.error f')
  | ok {a : α} {a' : α'} (h : A a a') : Agree E A (.ok a) (.ok a')

section Agree

variable {ε ε' α α' β β' : Type} {E : ε → ε' → Prop} {A : α → α' → Prop} {B : β → β' → Prop}
  {x : Except ε α} {x' : Except ε' α'}

theorem Agree.cases (h : Agree E A x x') :
    (∃ f f', E f f' ∧ x = .error f ∧ x' = .error f') ∨
      ∃ a a', A a a' ∧ x = .ok a ∧ x' = .ok a' := by
  cases h with
  | error h => exact .inl ⟨_, _, h, rfl, rfl⟩
  | ok h => exact .inr ⟨_, _, h, rfl, rfl⟩

theorem Agree.bind {f : α → Except ε β} {f' : α' → Except ε' β'} (h : Agree E A x x')
    (hf : ∀ {a a'}, A a a' → Agree E B (f a) (f' a')) : Agree E B (x >>= f) (x' >>= f') := by
  cases h with
  | error h => exact .error h
  | ok h => exact hf h

end Agree

section Lists

variable {α α' : Type} {A : α → α' → Prop} {xs : List α} {xs' : List α'} {x : α} {x' : α'}

theorem forall₂_tail (h : List.Forall₂ A xs xs') : List.Forall₂ A xs.tail xs'.tail := by
  cases h with
  | nil => exact .nil
  | cons _ h => exact h

theorem forall₂_concat (h : List.Forall₂ A (xs ++ [x]) (xs' ++ [x'])) :
    List.Forall₂ A xs xs' ∧ A x x' := by
  rw [← List.forall₂_reverse_iff, List.reverse_concat, List.reverse_concat] at h
  cases h with
  | cons hx h => exact ⟨List.forall₂_reverse_iff.mp h, hx⟩

end Lists

/-! ## What differs in spans only -/

/-- Spans that cover related spans are related. -/
def KeptByCover (R : Span → Span → Prop) : Prop :=
  ∀ ⦃s s' t t' : Span⦄, R s s' → R t t' → R (s.cover t) (s'.cover t')

/-- Tokens with one kind and text at related spans. -/
structure Token.Alike (R : Span → Span → Prop) (source source' : Bytes) (t t' : Token) : Prop where
  kind : t.kind = t'.kind
  text : t.text source = t'.text source'
  span : R t.span t'.span

abbrev TokensAlike (R : Span → Span → Prop) (source source' : Bytes) :
    List Token → List Token → Prop :=
  List.Forall₂ (Token.Alike R source source')

/-- Expressions that differ in their spans only. -/
inductive Expr.Alike (R : Span → Span → Prop) : Expr → Expr → Prop where
  | leaf (k : LeafKind) (v : Value) {span span' mark mark' : Span} (hspan : R span span') :
      Alike R (.leaf k v span mark) (.leaf k v span' mark')
  | unary (op : UnaryOp) {span span' mark mark' : Span} {e e' : Expr} (hspan : R span span')
      (h : Alike R e e') : Alike R (.unary op span mark e) (.unary op span' mark' e')
  | binary (op : BinaryOp) {span span' mark mark' : Span} {l l' r r' : Expr} (hspan : R span span')
      (hl : Alike R l l') (hr : Alike R r r') :
      Alike R (.binary op span mark l r) (.binary op span' mark' l' r')

/-- Reports of one kind with one message at related spans. -/
structure Diagnostic.Alike (R : Span → Span → Prop) (d d' : Diagnostic) : Prop where
  kind : d.kind = d'.kind
  message : d.message = d'.message
  spans : List.Forall₂ R d.spans d'.spans

/-- Faults of two texts that are reported alike. -/
abbrev ReportedAlike {φ : Type} (R : Span → Span → Prop) (report : Bytes → φ → Diagnostic)
    (source source' : Bytes) (f f' : φ) : Prop :=
  (report source f).Alike R (report source' f')

section Relations

variable {R : Span → Span → Prop} {source source' : Bytes}

theorem Token.Alike.describe {t t' : Token} (h : t.Alike R source source' t') :
    t.describe source = t'.describe source' := by
  unfold Token.describe
  rw [h.kind, h.text]

theorem Expr.Alike.span {e e' : Expr} (h : e.Alike R e') : R e.span e'.span := by
  cases h with
  | leaf k v hspan => exact hspan
  | unary op hspan => exact hspan
  | binary op hspan => exact hspan

theorem alike_report (k : DiagnosticKind) {m m' : Bytes} {spans spans' : List Span} (hm : m = m')
    (hspans : List.Forall₂ R spans spans') :
    (Diagnostic.report k source m spans).Alike R (Diagnostic.report k source' m' spans') :=
  ⟨rfl, hm, hspans⟩

end Relations

/-! ## Parsing -/

namespace Parse

section Parsers

variable (R : Span → Span → Prop) (source source' : Bytes)

/-- The parsers fail alike, or read expressions alike and leave tokens alike. -/
def OutcomeAlike : Outcome → Outcome → Prop :=
  Agree (ReportedAlike R ParseFault.diagnostic source source')
    fun p p' => p.1.Alike R p'.1 ∧ TokensAlike R source source' p.2 p'.2

def ParserAlike (parser parser' : List Token → Outcome) : Prop :=
  ∀ ⦃ts ts' : List Token⦄, TokensAlike R source source' ts ts' →
    OutcomeAlike R source source' (parser ts) (parser' ts')

end Parsers

section Chains

variable {R : Span → Span → Prop} {source source' : Bytes}
  {operand operand' : List Token → Outcome}

-- The outcomes are related behind the colon: before it, the second `match` would
-- take that hypothesis into its cases.
/-- Parsers go on alike behind outcomes alike. -/
theorem OutcomeAlike.andThen {next next' : Expr → List Token → Outcome}
    (hnext : ∀ {e e' ts ts'}, e.Alike R e' → TokensAlike R source source' ts ts' →
      OutcomeAlike R source source' (next e ts) (next' e' ts')) {x x' : Outcome} :
    OutcomeAlike R source source' x x' →
      OutcomeAlike R source source'
        (match x with
          | .error f => .error f
          | .ok (e, ts) => next e ts)
        (match x' with
          | .error f => .error f
          | .ok (e, ts) => next' e ts) := by
  intro h
  cases h with
  | error hf => exact .error hf
  | ok h => exact hnext h.1 h.2

theorem chainFrom_alike (hR : KeptByCover R)
    (hoperand : ParserAlike R source source' operand operand') (level : Level) (bound : Nat)
    {left left' : Expr} (hleft : left.Alike R left') {ts ts' : List Token}
    (hts : TokensAlike R source source' ts ts') :
    OutcomeAlike R source source' (chainFrom level operand bound left ts)
      (chainFrom level operand' bound left' ts') := by
  induction bound generalizing left left' ts ts' with
  | zero => exact .ok ⟨hleft, hts⟩
  | succ bound ih =>
    cases hts with
    | nil => exact .ok ⟨hleft, .nil⟩
    | @cons t t' ts ts' ht hts =>
      simp only [chainFrom, ht.kind]
      cases level t'.kind with
      | none => exact .ok ⟨hleft, .cons ht hts⟩
      | some op =>
        refine .andThen (fun hright hrest => ih ?_ hrest) (hoperand hts)
        exact .binary op (hR hleft.span hright.span) hleft hright

theorem chain_alike (hR : KeptByCover R) (hoperand : ParserAlike R source source' operand operand')
    (level : Level) (bound : Nat) :
    ParserAlike R source source' (chain bound level operand) (chain bound level operand') := by
  intro ts ts' hts
  refine .andThen (fun hleft hrest => ?_) (hoperand hts)
  exact chainFrom_alike hR hoperand level bound hleft hrest

theorem expression_alike (hR : KeptByCover R)
    (hoperand : ParserAlike R source source' operand operand') (bound : Nat) :
    ParserAlike R source source' (expression bound operand) (expression bound operand') := by
  have hfactor := chain_alike hR hoperand factorLevel bound
  have hterm := chain_alike hR hfactor termLevel bound
  have hcomparison := chain_alike hR hterm comparisonLevel bound
  have hequality := chain_alike hR hcomparison equalityLevel bound
  have hand := chain_alike hR hequality andLevel bound
  exact chain_alike hR hand orLevel bound

end Chains

/-- Inputs with ends alike and one bound. -/
structure Input.Alike (R : Span → Span → Prop) (input input' : Input) : Prop where
  final : Token.Alike R input.source input'.source input.final input'.final
  bound : input.bound = input'.bound

section Unary

variable {R : Span → Span → Prop} {input input' : Input} {t t' : Token} {ts ts' : List Token}

theorem Input.Alike.next (h : input.Alike R input')
    (hts : TokensAlike R input.source input'.source ts ts') :
    Token.Alike R input.source input'.source (input.next ts) (input'.next ts') := by
  cases hts with
  | nil => exact h.final
  | cons ht => exact ht

theorem literal_alike (h : input.Alike R input')
    (hts : TokensAlike R input.source input'.source ts ts') :
    OutcomeAlike R input.source input'.source (literal input ts) (literal input' ts') := by
  have ht := h.next hts
  have hrest := forall₂_tail hts
  unfold literal
  simp only [ht.kind, ht.text]
  generalize input.next ts = t, input'.next ts' = t' at ht
  have hfault : ∀ {m m' : Bytes}, m = m' →
      (Diagnostic.report .parse input.source m [t.span]).Alike R
        (Diagnostic.report .parse input'.source m' [t'.span]) :=
    fun hm => alike_report .parse hm (.cons ht.span .nil)
  cases t'.kind with
  | integer =>
    cases readInt32? (t'.text input'.source) with
    | some i => exact .ok ⟨.leaf _ _ ht.span, hrest⟩
    | none => exact .error (hfault (by rw [ParseFault.message, ParseFault.message, ht.text]))
  | float =>
    rcases readFloat (t'.text input'.source) with (_ | _) | x
    · exact .error (hfault (by rw [ParseFault.message, ParseFault.message, ht.text]))
    · exact .error (hfault (by rw [ParseFault.message, ParseFault.message, ht.text]))
    · exact .ok ⟨.leaf _ _ ht.span, hrest⟩
  | word w =>
    cases w with
    | true => exact .ok ⟨.leaf _ _ ht.span, hrest⟩
    | false => exact .ok ⟨.leaf _ _ ht.span, hrest⟩
    | _ => exact .error (hfault (by rw [ParseFault.message, ParseFault.message, ht.describe]))
  | _ => exact .error (hfault (by rw [ParseFault.message, ParseFault.message, ht.describe]))

theorem close_alike (h : input.Alike R input') {opening opening' : Span}
    (hopening : R opening opening') {inner inner' : Expr} (hinner : inner.Alike R inner')
    (hts : TokensAlike R input.source input'.source ts ts') :
    OutcomeAlike R input.source input'.source (close input opening inner ts)
      (close input' opening' inner' ts') := by
  have ht := h.next hts
  unfold close
  simp only [ht.kind]
  split
  · exact .ok ⟨hinner, forall₂_tail hts⟩
  · refine .error (alike_report .parse ?_ (.cons hopening .nil))
    rw [ParseFault.message, ParseFault.message, ht.describe]

theorem tooDeep_alike (ht : Token.Alike R input.source input'.source t t') :
    OutcomeAlike R input.source input'.source (.error (.tooDeep t.span))
      (.error (.tooDeep t'.span)) :=
  .error (alike_report .parse rfl (.cons ht.span .nil))

/-- Parsers over parsers alike with one level less are alike. -/
theorem unary_alike_of_inner (hR : KeptByCover R) (h : input.Alike R input') {depth : Nat}
    (hinner : ∀ n, depth = n + 1 →
      ParserAlike R input.source input'.source (unary input n) (unary input' n)) :
    ParserAlike R input.source input'.source (unary input depth) (unary input' depth) := by
  intro ts ts' hts
  unfold unary
  cases hts with
  | nil => exact literal_alike h .nil
  | @cons t t' ts ts' ht hts =>
    simp only [ht.kind]
    cases unaryOp? t'.kind with
    | some op =>
      cases depth with
      | zero => exact tooDeep_alike ht
      | succ n =>
        refine .andThen (fun hoperand hrest => .ok ⟨?_, hrest⟩) (hinner n rfl hts)
        exact .unary op (hR ht.span hoperand.span) hoperand
    | none =>
      by_cases hopening : t'.kind = .mark .openParen
      · simp only [if_pos hopening, h.bound]
        cases depth with
        | zero => exact tooDeep_alike ht
        | succ n =>
          have hgroup := expression_alike hR (hinner n rfl) input'.bound hts
          exact .andThen (fun hinner hrest => close_alike h ht.span hinner hrest) hgroup
      · simp only [if_neg hopening]
        exact literal_alike h (.cons ht hts)

theorem unary_alike (hR : KeptByCover R) (h : input.Alike R input') (depth : Nat) :
    ParserAlike R input.source input'.source (unary input depth) (unary input' depth) := by
  -- As in the parser, the levels that are left decrease, not the tokens.
  induction depth with
  | zero => exact unary_alike_of_inner hR h fun n hn => by omega
  | succ depth ih =>
    refine unary_alike_of_inner hR h fun n hn => ?_
    obtain rfl : depth = n := by omega
    exact ih

end Unary

theorem inputOf_scan (source : Bytes) :
    inputOf source (scan source).tokens =
      (⟨source, endToken source, ((pieces source).filterMap PlacedPiece.token?).length⟩,
        (pieces source).filterMap PlacedPiece.token?) := by
  have hended : (scan source).tokens.getLast?.map Token.kind = some .endOfInput := by
    rw [scan, List.getLast?_concat]
    rfl
  unfold inputOf
  simp only [if_pos hended, takeWhile_scan]
  rw [scan, List.drop_left]
  rfl

end Parse

section Scans

variable {R : Span → Span → Prop} {source source' : Bytes}

theorem parseTokens_alike (hR : KeptByCover R)
    (h : TokensAlike R source source' (scan source).tokens (scan source').tokens) :
    Agree (ReportedAlike R ParseFault.diagnostic source source') (Expr.Alike R)
      (parseTokens source (scan source).tokens) (parseTokens source' (scan source').tokens) := by
  obtain ⟨htokens, hend⟩ := forall₂_concat h
  unfold parseTokens
  rw [Parse.inputOf_scan, Parse.inputOf_scan]
  simp only
  generalize (pieces source).filterMap PlacedPiece.token? = ts,
    (pieces source').filterMap PlacedPiece.token? = ts' at htokens
  have hinput : Parse.Input.Alike R ⟨source, endToken source, ts.length⟩
      ⟨source', endToken source', ts'.length⟩ := ⟨hend, htokens.length_eq⟩
  -- The bounds of the two parsers are the numbers of their tokens, hence equal.
  have hparse :=
    Parse.expression_alike hR (Parse.unary_alike hR hinput maxNesting) ts.length htokens
  rw [← htokens.length_eq] at hparse ⊢
  rcases hparse.cases with ⟨f, f', hf, hx, hx'⟩ | ⟨⟨e, rest⟩, ⟨e', rest'⟩, ⟨he, hrest⟩, hx, hx'⟩
  · rw [hx, hx']
    exact .error hf
  · rw [hx, hx']
    cases hrest with
    | nil => exact .ok he
    | cons ht =>
      refine .error (alike_report .parse ?_ (.cons ht.span .nil))
      rw [ParseFault.message, ParseFault.message, ht.describe]

/-! ## Kinds -/

theorem typeOf_alike {e e' : Expr} (h : e.Alike R e') :
    Agree (ReportedAlike R TypeFault.diagnostic source source') Eq e.typeOf e'.typeOf := by
  induction h with
  | leaf k v => exact .ok rfl
  | unary op _ he ih =>
    refine ih.bind ?_
    rintro k _ rfl
    unfold Typing.unaryKind
    split
    · exact .ok rfl
    · exact .error (alike_report .type rfl (.cons he.span .nil))
  | binary op _ hl hr ihl ihr =>
    refine ihl.bind ?_
    rintro k _ rfl
    refine ihr.bind ?_
    rintro j _ rfl
    have hspans := List.Forall₂.cons hl.span (.cons hr.span .nil)
    unfold Typing.binaryKind
    split
    · exact .error (alike_report .type rfl hspans)
    · split
      · exact .ok rfl
      · exact .error (alike_report .type rfl hspans)

/-! ## Code -/

/-- Chunks that differ in their recorded spans only. -/
structure Chunk.Alike (c c' : Chunk) : Prop where
  code? : c.code? = c'.code?
  constants : c.constants = c'.constants
  limit : c.limit = c'.limit

theorem Chunk.Alike.code {c c' : Chunk} (h : c.Alike c') : c.code = c'.code := by
  rw [Chunk.code, Chunk.code, h.code?]

theorem Chunk.Alike.emit {c c' : Chunk} (h : c.Alike c') (op : Opcode) :
    (c.emit op).Alike (c'.emit op) := by
  refine ⟨?_, h.constants, h.limit⟩
  show some (c.code ++ [op.byte]) = some (c'.code ++ [op.byte])
  rw [h.code]

theorem Chunk.Alike.fingerprint {c c' : Chunk} (h : c.Alike c') :
    c.fingerprint = c'.fingerprint := by
  unfold Chunk.fingerprint Chunk.encoded
  rw [h.code?, h.constants]

theorem Chunk.Alike.emitConstant {c c' : Chunk} (h : c.Alike c') (v : Value) :
    Agree Eq Chunk.Alike (c.emitConstant v) (c'.emitConstant v) := by
  obtain ⟨code?, constants, locations, limit, hpos, hle⟩ := c
  obtain ⟨code?', constants', locations', limit', hpos', hle'⟩ := c'
  obtain rfl : code? = code?' := h.code?
  obtain rfl : constants = constants' := h.constants
  obtain rfl : limit = limit' := h.limit
  unfold Chunk.emitConstant Chunk.addConstant
  simp only
  split
  · exact .error rfl
  · exact .ok ⟨rfl, rfl, rfl⟩

theorem emit_alike {e e' : Expr} (h : e.Alike R e') {c c' : Chunk} (hc : c.Alike c') :
    Agree (ReportedAlike R CapacityFault.diagnostic source source') Chunk.Alike (e.emit c)
      (e'.emit c') := by
  induction h generalizing c c' with
  | @leaf k v span span' mark mark' hspan =>
    by_cases hk : k = .bool
    · subst hk
      exact .ok (hc.emit _)
    · rw [Expr.emit_constant hk, Expr.emit_constant hk]
      rcases (hc.emitConstant v).cases with ⟨full, _, rfl, hx, hx'⟩ | ⟨d, d', hd, hx, hx'⟩
      · rw [hx, hx']
        exact .error ⟨rfl, rfl, .cons hspan .nil⟩
      · rw [hx, hx']
        exact .ok hd
  | unary op _ _ ih =>
    refine (ih hc).bind fun hoperand => .ok ?_
    exact ⟨(hoperand.emit _).code?, hoperand.constants, hoperand.limit⟩
  | binary op _ _ _ ihl ihr =>
    refine (ihl hc).bind fun hleft => (ihr hleft).bind fun hright => .ok ?_
    exact ⟨(hright.emit _).code?, hright.constants, hright.limit⟩

theorem generate_alike {e e' : Expr} (h : e.Alike R e') (limits : Limits) :
    Agree (ReportedAlike R CapacityFault.diagnostic source source') Chunk.Alike (e.generate limits)
      (e'.generate limits) := by
  refine (emit_alike h ⟨rfl, rfl, rfl⟩).bind fun {c c'} hc => ?_
  have hret := hc.emit .ret
  simp only [hret.code]
  split
  · exact .error ⟨rfl, rfl, .cons h.span .nil⟩
  · exact .ok hret

/-! ## Programs -/

/-- Programs with one code, one list of constants and one kind of value, and so with
one fingerprint. -/
structure Program.Alike (p p' : Program) : Prop where
  code : p.chunk.code? = p'.chunk.code?
  constants : p.chunk.constants = p'.chunk.constants
  kind : p.kind = p'.kind
  fingerprint : p.chunk.fingerprint = p'.chunk.fingerprint

/-- Texts whose tokens are alike are compiled alike. -/
theorem compile_alike (hR : KeptByCover R)
    (h : TokensAlike R source source' (scan source).tokens (scan source').tokens)
    (limits : Limits) :
    Agree (ReportedAlike R Failure.diagnostic source source') Program.Alike
      (compile source limits) (compile source' limits) := by
  simp only [compile_eq, parse, Tree.typing_ofExpr, Tree.generate_ofExpr]
  -- The first stage that fails on one text fails on the other.
  rcases (parseTokens_alike hR h).cases with ⟨f, f', hf, hx, hx'⟩ | ⟨e, e', he, hx, hx'⟩
  · rw [hx, hx']
    exact .error hf
  rw [hx, hx']
  rcases (typeOf_alike he).cases with ⟨f, f', hf, hx, hx'⟩ | ⟨k, _, rfl, hx, hx'⟩
  · simp only [hx, hx']
    exact .error hf
  simp only [hx, hx']
  rcases (generate_alike he limits).cases with ⟨f, f', hf, hx, hx'⟩ | ⟨c, c', hc, hx, hx'⟩
  · rw [hx, hx']
    exact .error hf
  · rw [hx, hx']
    exact .ok ⟨hc.code?, hc.constants, rfl, hc.fingerprint⟩

end Scans

end Abacus
