import Abacus.Proofs.Grammar.Leaves
import Abacus.Proofs.Tree.Blocks
import Abacus.Proofs.Tree.Growing

/-!
# The spans of a parsed tree

`Grammar.Written` says of an expression how its spans lie: a leaf where its literal is, a
unary operator before its operand, a binary one between its operands, and an expression
from the start of its first part to the end of its last one.  What is parsed is written in
this way, because the tokens of a text follow each other (`Derivation.stands`).

On the nodes of a tree this becomes a picture of the links.  The span of an operand lies
inside the span of its operator (`inside_of_isChild`), hence so does whatever is below, and
nodes of which neither is below the other lie apart (`before_of_not_below`).
`Tree.Placed` says where a single node stands, and `Tree.Spanned` is the whole of it.
-/

namespace Abacus

namespace Span

/-- The span is a part of the other one and not all of it. -/
def Inside (s t : Span) : Prop :=
  t.start ≤ s.start ∧ s.stop ≤ t.stop ∧ s ≠ t

/-- One of the spans ends before the other one starts. -/
def Apart (s t : Span) : Prop :=
  s.stop ≤ t.start ∨ t.stop ≤ s.start

section Inside

variable {s t u : Span}

theorem contains_iff {offset : Int} :
    s.contains offset = true ↔ s.start ≤ offset ∧ offset < s.stop := by
  simp [contains]

theorem Inside.trans (h : s.Inside t) (h' : t.Inside u) : s.Inside u := by
  obtain ⟨hstart, hstop, hne⟩ := h
  obtain ⟨hstart', hstop', -⟩ := h'
  refine ⟨by omega, by omega, ?_⟩
  rintro rfl
  apply hne
  obtain ⟨start, stop⟩ := s
  obtain ⟨start', stop'⟩ := t
  simp only [Span.mk.injEq] at *
  omega

theorem Inside.not_apart (h : s.Inside t) (hs : s.start < s.stop) : ¬s.Apart t := by
  obtain ⟨hstart, hstop, -⟩ := h
  unfold Apart
  omega

theorem Inside.asymm (h : s.Inside t) : ¬t.Inside s := by
  intro h'
  exact (h.trans h').2.2 rfl

theorem inside_of_start (hstart : t.start < s.start) (hstop : s.stop ≤ t.stop) : s.Inside t := by
  refine ⟨by omega, hstop, ?_⟩
  rintro rfl
  omega

theorem inside_of_stop (hstart : t.start ≤ s.start) (hstop : s.stop < t.stop) : s.Inside t := by
  refine ⟨hstart, by omega, ?_⟩
  rintro rfl
  omega

theorem cover_eq (hstart : s.start ≤ t.start) (hstop : s.stop ≤ t.stop) :
    s.cover t = ⟨s.start, t.stop⟩ := by
  rw [cover, if_pos hstart, if_pos hstop]

end Inside

end Span

namespace Grammar

/-! ## Expressions on their tokens -/

/-- The expression is written with some of the tokens, and its parts stand as these do. -/
inductive Written (source : Bytes) (ts : List Token) : Expr → Prop where
  | leaf {t : Token} {k : LeafKind} {v : Value} (ht : t ∈ ts)
      (hread : readLeaf? source t = some (.leaf k v t.span t.span)) :
      Written source ts (.leaf k v t.span t.span)
  | unary {t : Token} {op : UnaryOp} {e : Expr} (ht : t ∈ ts)
      (hop : unaryOperator? t.kind = some op) (he : Written source ts e)
      (hbefore : t.span.stop ≤ e.span.start) :
      Written source ts (.unary op ⟨t.span.start, e.span.stop⟩ t.span e)
  | binary {t : Token} {rank : Rank} {op : BinaryOp} {l r : Expr} (ht : t ∈ ts)
      (hop : rank.operator? t.kind = some op) (hl : Written source ts l)
      (hr : Written source ts r) (hleft : l.span.stop ≤ t.span.start)
      (hright : t.span.stop ≤ r.span.start) :
      Written source ts (.binary op ⟨l.span.start, r.span.stop⟩ t.span l r)

section Written

variable {source : Bytes} {ts us vs : List Token} {e l r n : Expr} {t : Token}

theorem Written.node {path : NodePath} (h : Written source ts e) (hnode : e.node? path = some n) :
    Written source ts n := by
  induction h generalizing path with
  | leaf ht hread =>
    cases path with
    | nil =>
      cases hnode
      exact .leaf ht hread
    | cons side path => simp [Expr.node?] at hnode
  | unary ht hop he hbefore ih =>
    rcases path with _ | ⟨_ | _, path⟩
    · cases hnode
      exact .unary ht hop he hbefore
    · exact ih hnode
    · cases hnode
  | binary ht hop hl hr hleft hright ihl ihr =>
    rcases path with _ | ⟨_ | _, path⟩
    · cases hnode
      exact .binary ht hop hl hr hleft hright
    · exact ihl hnode
    · exact ihr hnode

theorem Written.start_lt_stop (hts : ∀ t ∈ ts, t.span.start < t.span.stop)
    (h : Written source ts e) : e.span.start < e.span.stop := by
  induction h with
  | leaf ht => exact hts _ ht
  | @unary t op e ht hop he hbefore ih =>
    have hmark := hts _ ht
    show t.span.start < e.span.stop
    omega
  | @binary t rank op l r ht hop hl hr hleft hright ihl ihr =>
    have hmark := hts _ ht
    show l.span.start < r.span.stop
    omega

/-- The expression is written with the tokens `ts`, of which those in `us` are its own: its
span starts with one of these and ends with one of these. -/
structure Stands (source : Bytes) (ts us : List Token) (e : Expr) : Prop where
  written : Written source ts e
  first : ∃ t ∈ us, e.span.start = t.span.start
  last : ∃ t ∈ us, e.span.stop = t.span.stop

theorem Stands.mono (h : Stands source ts us e) (hsub : us ⊆ vs) : Stands source ts vs e := by
  obtain ⟨hwritten, ⟨first, hfirst, hstart⟩, ⟨last, hlast, hstop⟩⟩ := h
  exact ⟨hwritten, ⟨first, hsub hfirst, hstart⟩, ⟨last, hsub hlast, hstop⟩⟩

theorem stands_readLeaf (ht : t ∈ ts) (hread : (readLeaf? source t).isSome = true) :
    Stands source ts [t] (readLeaf source t) := by
  obtain ⟨e, he⟩ := Option.isSome_iff_exists.mp hread
  have hleaf : ∃ k v, e = .leaf k v t.span t.span := by
    unfold readLeaf? at he
    split at he
    · obtain ⟨i, -, rfl⟩ := Option.map_eq_some_iff.mp he
      exact ⟨_, _, rfl⟩
    · obtain ⟨x, -, rfl⟩ := Option.map_eq_some_iff.mp he
      exact ⟨_, _, rfl⟩
    · exact ⟨_, _, (Option.some.inj he).symm⟩
    · exact ⟨_, _, (Option.some.inj he).symm⟩
    · cases he
  obtain ⟨k, v, rfl⟩ := hleaf
  rw [readLeaf, he]
  exact ⟨.leaf ht he, ⟨t, List.mem_cons_self, rfl⟩, ⟨t, List.mem_cons_self, rfl⟩⟩

/-- An operator before its operand. -/
theorem Stands.applied {op : UnaryOp} (hts : ∀ t ∈ ts, t.span.start < t.span.stop)
    (h : Stands source ts us e) (ht : t ∈ ts) (hop : unaryOperator? t.kind = some op)
    (hbefore : ∀ u ∈ us, t.span.stop ≤ u.span.start) :
    Stands source ts (t :: us) (.applied op t.span e) := by
  obtain ⟨hwritten, ⟨first, hfirst, hstart⟩, ⟨last, hlast, hstop⟩⟩ := h
  have hmark := hts t ht
  have hspan := hwritten.start_lt_stop hts
  have hfollows := hbefore first hfirst
  have hcover : t.span.cover e.span = ⟨t.span.start, e.span.stop⟩ :=
    Span.cover_eq (by omega) (by omega)
  rw [Expr.applied, hcover]
  refine ⟨.unary ht hop hwritten (by omega), ⟨t, List.mem_cons_self, rfl⟩, ?_⟩
  exact ⟨last, List.mem_cons_of_mem t hlast, hstop⟩

/-- An operator between its operands. -/
theorem Stands.joined {rank : Rank} {op : BinaryOp} (hts : ∀ t ∈ ts, t.span.start < t.span.stop)
    (hl : Stands source ts us l) (hr : Stands source ts vs r) (ht : t ∈ ts)
    (hop : rank.operator? t.kind = some op) (hleft : ∀ u ∈ us, u.span.stop ≤ t.span.start)
    (hright : ∀ v ∈ vs, t.span.stop ≤ v.span.start) :
    Stands source ts (us ++ t :: vs) (.joined op t.span l r) := by
  obtain ⟨hl, ⟨first, hfirst, hstart⟩, ⟨last, hlast, hstop⟩⟩ := hl
  obtain ⟨hr, ⟨first', hfirst', hstart'⟩, ⟨last', hlast', hstop'⟩⟩ := hr
  have hmark := hts t ht
  have hspan := hl.start_lt_stop hts
  have hspan' := hr.start_lt_stop hts
  have hends := hleft last hlast
  have hfollows := hright first' hfirst'
  have hcover : l.span.cover r.span = ⟨l.span.start, r.span.stop⟩ :=
    Span.cover_eq (by omega) (by omega)
  rw [Expr.joined, hcover]
  refine ⟨.binary ht hop hl hr (by omega) (by omega), ⟨first, ?_, hstart⟩, ⟨last', ?_, hstop'⟩⟩
  · exact List.mem_append_left _ hfirst
  · exact List.mem_append_right _ (List.mem_cons_of_mem t hlast')

end Written

/-- Every token ends before the next one starts. -/
abbrev Consecutive (ts : List Token) : Prop :=
  ts.Pairwise fun t u => t.span.stop ≤ u.span.start

mutual

/-- What is derived from consecutive tokens stands on them. -/
theorem Derivation.stands {source : Bytes} {ts : List Token}
    (hts : ∀ t ∈ ts, t.span.start < t.span.stop)
    (hread : ∀ t ∈ ts, isLiteral t.kind = true → (readLeaf? source t).isSome = true) :
    {p : Phrase} → (d : Derivation p) → d.tokens ⊆ ts → Consecutive d.tokens →
      Stands source ts d.tokens (d.expr (readLeaf source))
  | _, .literal t hkind, hsub, _ => by
    have ht : t ∈ ts := hsub List.mem_cons_self
    exact stands_readLeaf ht (hread t ht hkind)
  | _, .group opening inner closing _ _, hsub, hordered => by
    have hinner : inner.tokens ⊆ opening :: (inner.tokens ++ [closing]) :=
      fun t ht => List.mem_cons_of_mem opening (List.mem_append_left _ ht)
    have hconsecutive := (List.pairwise_append.mp (List.pairwise_cons.mp hordered).2).1
    exact (inner.stands hts hread (fun t ht => hsub (hinner ht)) hconsecutive).mono hinner
  | _, .applied t op operand hop, hsub, hordered => by
    obtain ⟨hbefore, hconsecutive⟩ := List.pairwise_cons.mp hordered
    have hoperand := operand.stands hts hread (fun u hu => hsub (List.mem_cons_of_mem t hu))
      hconsecutive
    exact hoperand.applied hts (hsub List.mem_cons_self) hop hbefore
  | _, .primary d, hsub, hordered => d.stands hts hread hsub hordered
  | _, .chain first more, hsub, hordered => by
    have hconsecutive := (List.pairwise_append.mp hordered).1
    have hfirst := first.stands hts hread (fun u hu => hsub (List.mem_append_left _ hu))
      hconsecutive
    exact more.stands hts hread (fun u hu => hsub (List.mem_append_right _ hu)) hordered hfirst

/-- Operators and operands stand on their tokens, behind those of the expression before
them. -/
theorem Repeated.stands {source : Bytes} {ts : List Token}
    (hts : ∀ t ∈ ts, t.span.start < t.span.stop)
    (hread : ∀ t ∈ ts, isLiteral t.kind = true → (readLeaf? source t).isSome = true) :
    {r : Rank} → (more : Repeated r) → {left : Expr} → {us : List Token} → more.tokens ⊆ ts →
      Consecutive (us ++ more.tokens) → Stands source ts us left →
        Stands source ts (us ++ more.tokens) (more.exprFrom (readLeaf source) left)
  | _, .nil, _, us, _, _, hleft => by
    rw [Repeated.tokens, List.append_nil]
    exact hleft
  | _, .cons t op operand more hop, left, us, hsub, hordered, hleft => by
    have hsplit : us ++ t :: (operand.tokens ++ more.tokens) =
        us ++ t :: operand.tokens ++ more.tokens := by simp
    rw [Repeated.tokens] at hsub hordered ⊢
    rw [hsplit] at hordered ⊢
    have hfront : Consecutive (us ++ t :: operand.tokens) := (List.pairwise_append.mp hordered).1
    obtain ⟨-, hrest, hbefore⟩ := List.pairwise_append.mp hfront
    obtain ⟨hbehind, hconsecutive⟩ := List.pairwise_cons.mp hrest
    have hoperand := operand.stands hts hread
      (fun u hu => hsub (List.mem_cons_of_mem t (List.mem_append_left _ hu))) hconsecutive
    have hjoined := hleft.joined hts hoperand (hsub List.mem_cons_self) hop
      (fun u hu => hbefore u hu t List.mem_cons_self) hbehind
    exact more.stands hts hread
      (fun u hu => hsub (List.mem_cons_of_mem t (List.mem_append_right _ hu))) hordered hjoined

end

/-- The tokens of a text take up bytes. -/
theorem start_lt_stop_of_mem {source : Bytes} {t : Token}
    (ht : t ∈ (pieces source).filterMap PlacedPiece.token?) : t.span.start < t.span.stop := by
  obtain ⟨r, hr, hrt⟩ := List.mem_filterMap.mp ht
  obtain ⟨-, hspan⟩ := PlacedPiece.token?_eq_some_iff.mp hrt
  have hpos := (pieceOf_of_mem hr).size_pos
  rw [← hspan]
  show (r.offset : Int) < r.offset + r.piece.size
  omega

/-- What is parsed is written with the tokens of its text. -/
theorem written_of_parse {source : Bytes} {e : Expr} (hparse : parse source = .ok e) :
    Written source ((pieces source).filterMap PlacedPiece.token?) e := by
  obtain ⟨d, htokens, hd, rfl⟩ := (parseTokens_ok_iff source (scan source).tokens e).mp hparse
  rw [beforeEnd, takeWhile_scan] at htokens
  have hordered : Consecutive d.tokens := by
    rw [htokens]
    exact (pairwise_spans_tokens source).imp fun h => h.2
  have hread := hd.literals
  rw [htokens] at hread
  exact (d.stands (fun _ => start_lt_stop_of_mem) hread (fun t ht => htokens ▸ ht)
    hordered).written

end Grammar

/-! ## Leaves of a tree -/

/-- The leaves among the nodes are the leaves of the expression. -/
theorem Expr.spans_leaves_nodes (start : Nat) (e : Expr) :
    ((e.nodes start).filter fun n => n.kind.arity = 0).map Node.span =
      e.leaves.map Literal.span := by
  induction e generalizing start with
  | leaf k v span mark => rfl
  | unary op span mark e ih =>
    rw [nodes, List.filter_append, List.map_append, ih]
    exact List.append_nil _
  | binary op span mark l r ihl ihr =>
    rw [nodes, List.filter_append, List.filter_append, List.map_append, List.map_append, ihl, ihr,
      leaves, List.map_append]
    exact List.append_nil _

namespace Tree

/-- Where the node `n` stands in the source text: a leaf at its literal, an operator at its
token before or between its operands. -/
inductive Placed (source : Bytes) (t : Tree) (n : Node) : Prop where
  | leaf {token : Token} {k : LeafKind} (htoken : token ∈ (scan source).tokens)
      (hkind : n.kind = .leaf k)
      (hread : Grammar.readLeaf? source token = some (.leaf k n.value token.span token.span))
      (hspan : n.span = token.span) (hmark : n.mark = token.span)
  | unary {token : Token} {op : UnaryOp} {j : Nat} {operand : Node}
      (htoken : token ∈ (scan source).tokens) (hkind : n.kind = .unary op)
      (hop : Grammar.unaryOperator? token.kind = some op) (hmark : n.mark = token.span)
      (hleft : n.left = some j) (hoperand : t.nodes[j]? = some operand)
      (hnonempty : n.mark.start < n.mark.stop) (hbefore : n.mark.stop ≤ operand.span.start)
      (hspan : n.span = ⟨n.mark.start, operand.span.stop⟩)
  | binary {token : Token} {rank : Grammar.Rank} {op : BinaryOp} {j k : Nat} {left right : Node}
      (htoken : token ∈ (scan source).tokens) (hkind : n.kind = .binary op)
      (hop : rank.operator? token.kind = some op) (hmark : n.mark = token.span)
      (hleft : n.left = some j) (hleftNode : t.nodes[j]? = some left)
      (hright : n.right = some k) (hrightNode : t.nodes[k]? = some right)
      (hbehind : left.span.stop ≤ n.mark.start) (hnonempty : n.mark.start < n.mark.stop)
      (hbefore : n.mark.stop ≤ right.span.start)
      (hspan : n.span = ⟨left.span.start, right.span.stop⟩)

/-- How the nodes of a tree stand in the source text from which it was parsed. -/
structure Spanned (source : Bytes) (t : Tree) : Prop where
  /-- The leaves stand, in their order, where the literals of the text do. -/
  leaves : (t.nodes.toList.filter fun n => n.kind.arity = 0).map Node.span =
    Grammar.literalSpans (scan source).tokens
  placed : ∀ (i : Nat) (n : Node), t.nodes[i]? = some n → Placed source t n
  nonempty : ∀ (i : Nat) (n : Node), t.nodes[i]? = some n → n.span.start < n.span.stop
  /-- A span lies inside another one just if its node is below the other one. -/
  nested : ∀ (i j : Nat) (m n : Node), t.nodes[i]? = some m → t.nodes[j]? = some n →
    (m.span.Inside n.span ↔ i ≠ j ∧ t.Below i j)
  /-- The spans of two nodes lie apart, or one of them inside the other. -/
  laminar : ∀ (i j : Nat) (m n : Node), t.nodes[i]? = some m → t.nodes[j]? = some n → i ≠ j →
    m.span.Apart n.span ∨ m.span.Inside n.span ∨ n.span.Inside m.span

/-! ## Nodes inside and apart -/

section Nested

open Grammar

variable {source : Bytes} {ts : List Token} {e : Expr} {i j : Nat} {m n : Node}

/-- The node at an index is the last one of the block of an expression that is written
with the tokens. -/
theorem exists_written (hw : Written source ts e) (hn : (ofExpr e).nodes[i]? = some n) :
    ∃ first x, Written source ts x ∧ Holds (ofExpr e).nodes first x ∧
      i = first + x.size - 1 ∧ n = x.top first := by
  obtain ⟨first, path, x, hnode, hholds, rfl⟩ :=
    exists_holds (Array.getElem?_eq_some_iff.mp hn).1
  rw [hholds.top] at hn
  exact ⟨first, x, hw.node hnode, hholds, rfl, (Option.some.inj hn).symm⟩

/-- The span of an operand lies inside the span of its operator. -/
theorem inside_of_isChild (hts : ∀ t ∈ ts, t.span.start < t.span.stop) (hw : Written source ts e)
    (hm : (ofExpr e).nodes[j]? = some m) (hn : (ofExpr e).nodes[i]? = some n)
    (h : (ofExpr e).IsChild j i) : m.span.Inside n.span := by
  obtain ⟨first, x, hx, hholds, rfl, rfl⟩ := exists_written hw hn
  have hchild := (isChild_iff hholds).mp h
  rw [Expr.span_top]
  cases hx with
  | leaf => exact hchild.elim
  | @unary t op o ht hop ho hbefore =>
    have hmark := hts t ht
    obtain rfl : j = first + o.size - 1 := hchild
    rw [hholds.operand.top] at hm
    cases hm
    rw [Expr.span_top]
    refine Span.inside_of_start ?_ (Int.le_refl _)
    show t.span.start < o.span.start
    omega
  | @binary t rank op l r ht hop hl hr hleft hright =>
    have hmark := hts t ht
    have hspan := hl.start_lt_stop hts
    have hspan' := hr.start_lt_stop hts
    rcases hchild with rfl | rfl
    · rw [hholds.left.top] at hm
      cases hm
      rw [Expr.span_top]
      refine Span.inside_of_stop (Int.le_refl _) ?_
      show l.span.stop < r.span.stop
      omega
    · rw [hholds.right.top] at hm
      cases hm
      rw [Expr.span_top]
      refine Span.inside_of_start ?_ (Int.le_refl _)
      show l.span.start < r.span.start
      omega

/-- Whatever is below a node lies inside its span. -/
theorem inside_of_below (hts : ∀ t ∈ ts, t.span.start < t.span.stop) (hw : Written source ts e)
    (hm : (ofExpr e).nodes[j]? = some m) (hn : (ofExpr e).nodes[i]? = some n)
    (h : (ofExpr e).Below j i) (hne : j ≠ i) : m.span.Inside n.span := by
  have hsteps : Relation.TransGen (ofExpr e).IsChild j i :=
    (Relation.reflTransGen_iff_eq_or_transGen.mp h).resolve_left (Ne.symm hne)
  clear h hne
  induction hsteps generalizing n with
  | single hchild => exact inside_of_isChild hts hw hm hn hchild
  | tail _ hchild ih =>
    have hnode := Array.getElem?_eq_getElem (hchild.lt.trans hchild.lt_size)
    exact (ih hnode).trans (inside_of_isChild hts hw hnode hn hchild)

theorem within_of_below (hts : ∀ t ∈ ts, t.span.start < t.span.stop) (hw : Written source ts e)
    (hm : (ofExpr e).nodes[j]? = some m) (hn : (ofExpr e).nodes[i]? = some n)
    (h : (ofExpr e).Below j i) : n.span.start ≤ m.span.start ∧ m.span.stop ≤ n.span.stop := by
  by_cases heq : j = i
  · subst heq
    rw [hm] at hn
    cases hn
    exact ⟨Int.le_refl _, Int.le_refl _⟩
  · obtain ⟨hstart, hstop, -⟩ := inside_of_below hts hw hm hn h heq
    exact ⟨hstart, hstop⟩

/-- In the block of an expression, a node that is not below a later one ends before that
one starts. -/
theorem before_of_not_below (hts : ∀ t ∈ ts, t.span.start < t.span.stop)
    (hw : Written source ts e) (hm : (ofExpr e).nodes[i]? = some m)
    (hn : (ofExpr e).nodes[j]? = some n) (hlt : i < j) (hnot : ¬(ofExpr e).Below i j)
    {x : Expr} {first : Nat} (hx : Written source ts x) (hholds : Holds (ofExpr e).nodes first x)
    (hi : first ≤ i) (hj : j < first + x.size) : m.span.stop ≤ n.span.start := by
  induction hx generalizing first with
  | leaf => exact absurd hj (by simp only [Expr.size]; omega)
  | @unary t op o ht hop ho hbefore ih =>
    -- The later node is not the operator, which everything is below.
    have hoperand : j < first + o.size := by
      by_contra hlast
      obtain rfl : j = first + (o.size + 1) - 1 := by simp only [Expr.size] at hj; omega
      exact hnot ((below_iff hholds).mpr ⟨hi, by simp only [Expr.size]; omega⟩)
    exact ih hholds.operand hi hoperand
  | @binary t rank op l r ht hop hl hr hleft hright ihl ihr =>
    have hoperands : j < first + l.size + r.size := by
      by_contra hlast
      obtain rfl : j = first + (l.size + r.size + 1) - 1 := by simp only [Expr.size] at hj; omega
      exact hnot ((below_iff hholds).mpr ⟨hi, by simp only [Expr.size]; omega⟩)
    by_cases hjleft : j < first + l.size
    · exact ihl hholds.left hi hjleft
    · by_cases hileft : i < first + l.size
      · -- The nodes lie in the two operands, and the operator between these.
        have hbelow : (ofExpr e).Below i (first + l.size - 1) :=
          (below_iff hholds.left).mpr ⟨hi, hileft⟩
        have hbelow' : (ofExpr e).Below j (first + l.size + r.size - 1) :=
          (below_iff hholds.right).mpr ⟨by omega, hoperands⟩
        have hends := (within_of_below hts hw hm hholds.left.top hbelow).2
        have hstarts := (within_of_below hts hw hn hholds.right.top hbelow').1
        have hmark := hts t ht
        rw [Expr.span_top] at hends hstarts
        omega
      · exact ihr hholds.right (by omega) hoperands

theorem apart_of_not_below (hts : ∀ t ∈ ts, t.span.start < t.span.stop)
    (hw : Written source ts e) (hm : (ofExpr e).nodes[i]? = some m)
    (hn : (ofExpr e).nodes[j]? = some n) (hij : ¬(ofExpr e).Below i j)
    (hji : ¬(ofExpr e).Below j i) : m.span.Apart n.span := by
  have hi := (Array.getElem?_eq_some_iff.mp hm).1
  have hj := (Array.getElem?_eq_some_iff.mp hn).1
  rw [size_ofExpr] at hi hj
  rcases Nat.lt_trichotomy i j with hlt | rfl | hlt
  · exact .inl (before_of_not_below hts hw hm hn hlt hij hw (holds_ofExpr e) (Nat.zero_le _)
      (by omega))
  · exact absurd .refl hij
  · exact .inr (before_of_not_below hts hw hn hm hlt hji hw (holds_ofExpr e) (Nat.zero_le _)
      (by omega))

theorem inside_iff (hts : ∀ t ∈ ts, t.span.start < t.span.stop) (hw : Written source ts e)
    (hm : (ofExpr e).nodes[i]? = some m) (hn : (ofExpr e).nodes[j]? = some n) :
    m.span.Inside n.span ↔ i ≠ j ∧ (ofExpr e).Below i j := by
  constructor
  · intro hinside
    have hne : i ≠ j := by
      rintro rfl
      rw [hm] at hn
      cases hn
      exact hinside.2.2 rfl
    refine ⟨hne, ?_⟩
    by_contra hnot
    by_cases hji : (ofExpr e).Below j i
    · exact hinside.asymm (inside_of_below hts hw hn hm hji (Ne.symm hne))
    · obtain ⟨first, x, hx, -, -, rfl⟩ := exists_written hw hm
      have hspan := hx.start_lt_stop hts
      rw [Expr.span_top] at hinside
      have happart := apart_of_not_below hts hw hm hn hnot hji
      rw [Expr.span_top] at happart
      exact hinside.not_apart hspan happart
  · rintro ⟨hne, hbelow⟩
    exact inside_of_below hts hw hm hn hbelow hne

end Nested

section Spanned

open Grammar

variable {source : Bytes} {e : Expr}
  (hw : Written source ((pieces source).filterMap PlacedPiece.token?) e)

include hw

theorem placed_of_written {i : Nat} {n : Node} (hn : (ofExpr e).nodes[i]? = some n) :
    Placed source (ofExpr e) n := by
  have hscan : ∀ {t : Token}, t ∈ (pieces source).filterMap PlacedPiece.token? →
      t ∈ (scan source).tokens := fun ht => List.mem_append_left _ ht
  obtain ⟨first, x, hx, hholds, -, rfl⟩ := exists_written hw hn
  cases hx with
  | leaf ht hread => exact .leaf (hscan ht) rfl hread rfl rfl
  | @unary t op o ht hop ho hbefore =>
    have hspan := o.span_top first
    refine .unary (hscan ht) rfl hop rfl rfl hholds.operand.top (start_lt_stop_of_mem ht) ?_ ?_
    · rwa [hspan]
    · rw [hspan]
      rfl
  | @binary t rank op l r ht hop hl hr hleft hright =>
    have hspan := l.span_top first
    have hspan' := r.span_top (first + l.size)
    refine .binary (hscan ht) rfl hop rfl rfl hholds.left.top rfl hholds.right.top ?_
      (start_lt_stop_of_mem ht) ?_ ?_
    · rwa [hspan]
    · rwa [hspan']
    · rw [hspan, hspan']
      rfl

/-- The tree of an expression that is written with the tokens of a text, its leaves in the
order of the literals, stands in the text. -/
theorem spanned_of_written
    (hleaves : e.leaves.map Literal.span = literalSpans (scan source).tokens) :
    (ofExpr e).Spanned source := by
  have hts : ∀ t ∈ (pieces source).filterMap PlacedPiece.token?, t.span.start < t.span.stop :=
    fun t ht => start_lt_stop_of_mem ht
  refine ⟨?_, fun i n hn => placed_of_written hw hn, ?_, ?_, ?_⟩
  · rw [toList_ofExpr, Expr.spans_leaves_nodes, hleaves]
  · intro i n hn
    obtain ⟨first, x, hx, -, -, rfl⟩ := exists_written hw hn
    rw [Expr.span_top]
    exact hx.start_lt_stop hts
  · intro i j m n hm hn
    exact inside_iff hts hw hm hn
  · intro i j m n hm hn hne
    by_cases hij : (ofExpr e).Below i j
    · exact .inr (.inl (inside_of_below hts hw hm hn hij hne))
    · by_cases hji : (ofExpr e).Below j i
      · exact .inr (.inr (inside_of_below hts hw hn hm hji (Ne.symm hne)))
      · exact .inl (apart_of_not_below hts hw hm hn hij hji)

end Spanned

end Tree

theorem Grammar.spans_leaves_of_parse {source : Bytes} {e : Expr} (hparse : parse source = .ok e) :
    e.leaves.map Literal.span = literalSpans (scan source).tokens := by
  obtain ⟨d, htokens, -, rfl⟩ := (parseTokens_ok_iff source (scan source).tokens e).mp hparse
  have hend : literalSpans [endToken source] = [] := rfl
  have hscan : literalSpans (scan source).tokens =
      literalSpans ((pieces source).filterMap PlacedPiece.token?) := by
    rw [scan, literalSpans_append, hend, List.append_nil]
  rw [d.spans_leaves (spans_leaves_readLeaf source), htokens, beforeEnd, takeWhile_scan, hscan]

/-- The tree that is grown from a text has its nodes in post order, every subtree in one
block, and its spans nest as its nodes do. -/
theorem tree_of_parse {source : Bytes} {t : Tree} (hparse : parseTree source = .ok t) :
    t.PostOrder ∧ t.Spanned source := by
  obtain ⟨e, he, rfl⟩ := parseTree_ok_iff.mp hparse
  exact ⟨Tree.postOrder_ofExpr e,
    Tree.spanned_of_written (Grammar.written_of_parse he) (Grammar.spans_leaves_of_parse he)⟩

/-- In `-(1+2)*3` the parentheses have no node; the product is the last of six nodes, with
the negation and all below it to its left. -/
theorem tree_of_parse_product :
    ∃ t, parseTree (utf8 "-(1+2)*3") = .ok t ∧
      t.nodes.toList.map (fun n => (n.left, n.right)) =
        [(none, none), (none, none), (some 0, some 1), (some 2, none), (none, none),
          (some 3, some 4)] ∧
      t.PostOrder ∧ t.Spanned (utf8 "-(1+2)*3") := by
  let sum : Expr := .joined .add ⟨3, 4⟩ (.ofInt 1 ⟨2, 3⟩) (.ofInt 2 ⟨4, 5⟩)
  let e : Expr := .joined .mul ⟨6, 7⟩ (.applied .negate ⟨0, 1⟩ sum) (.ofInt 3 ⟨7, 8⟩)
  have hparse : parseTree (utf8 "-(1+2)*3") = .ok (Tree.ofExpr e) := by decide +kernel
  exact ⟨Tree.ofExpr e, hparse, rfl, tree_of_parse hparse⟩

end Abacus
