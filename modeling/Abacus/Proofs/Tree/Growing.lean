import Abacus.Program
import Abacus.Proofs.Arena
import Abacus.Proofs.Failing

/-!
# Growing a tree

Two parsers read the same grammar.  One gives the expression; the other appends nodes to an
array, from every level of its recursion, and hands on nothing but indices.  They agree: the
second one appends the nodes of the expression that the first one reads, whatever nodes were
there before (`Lays`).

The nodes are read while the array grows, since the span of an operator comes from those of
its operands.  So the argument needs that a node stays where it is
(`Expr.getElem?_appendNodes`) and that the last one has the span of the expression
(`Expr.spanAt_top`).  From these, appending an operator to the nodes of its operands gives
the nodes of the whole (`Grown.unary_grown`, `Grown.binary_grown`), and each function of one
parser follows its counterpart.  `parseTreeTokens_eq` and `compile_eq` are what the rest of
the theory uses.
-/

namespace Abacus

namespace Expr

/-- The nodes of an expression behind those before, with the index of its own. -/
def grown (before : Array Node) (e : Expr) : Grown :=
  ⟨e.appendNodes before, (e.appendNodes before).size - 1⟩

section Grown

variable {before : Array Node}

theorem size_appendNodes (e : Expr) (before : Array Node) :
    (e.appendNodes before).size = before.size + e.size := by
  rw [← Array.length_toList, appendNodes_toList, List.length_append, nodes_length,
    Array.length_toList]

theorem top_grown_lt (e : Expr) (before : Array Node) :
    (e.grown before).top < (e.grown before).nodes.size := by
  have hpos := e.size_pos
  simp only [grown, size_appendNodes]
  omega

/-- What is appended leaves the nodes before it where they are. -/
theorem getElem?_appendNodes {i : Nat} (e : Expr) (h : i < before.size) :
    (e.appendNodes before)[i]? = before[i]? := by
  rw [← Array.getElem?_toList, appendNodes_toList, List.getElem?_append_left (by simpa using h),
    Array.getElem?_toList]

theorem spanAt_top (e : Expr) (before : Array Node) :
    Grown.spanAt (e.grown before).nodes (e.grown before).top = e.span := by
  cases e <;> simp [grown, appendNodes, Grown.spanAt, span]

/-- The span of an expression can still be read when the nodes of another one follow. -/
theorem spanAt_top_of_grown (l r : Expr) (before : Array Node) :
    Grown.spanAt (r.grown (l.grown before).nodes).nodes (l.grown before).top = l.span := by
  have hkept : (r.appendNodes (l.grown before).nodes)[(l.grown before).top]? =
      (l.grown before).nodes[(l.grown before).top]? :=
    getElem?_appendNodes r (l.top_grown_lt before)
  rw [← spanAt_top l before, Grown.spanAt, Grown.spanAt, ← hkept]
  rfl

end Grown

end Expr

/-! ## Appending an operator -/

namespace Grown

variable {before : Array Node}

theorem unary_grown (op : UnaryOp) (mark : Span) (e : Expr) :
    unary (e.grown before).nodes op mark (e.grown before).top =
      (Expr.applied op mark e).grown before := by
  rw [unary, Expr.spanAt_top]
  rfl

theorem binary_grown (op : BinaryOp) (mark : Span) (l r : Expr) :
    binary (r.grown (l.grown before).nodes).nodes op mark (l.grown before).top
        (r.grown (l.grown before).nodes).top =
      (Expr.joined op mark l r).grown before := by
  rw [binary, Expr.spanAt_top_of_grown, Expr.spanAt_top]
  rfl

end Grown

/-! ## One parser beside the other -/

/-- Lays out what a parser of expressions has read, behind the nodes before. -/
def laidOut (before : Array Node) : Parse.Outcome → TreeParse.Outcome
  | .error f => .error f
  | .ok (e, rest) => .ok (e.grown before, rest)

/-- The parser `grow` appends the nodes of what `read` reads, and fails where that fails. -/
def Lays (grow : Array Node → List Token → TreeParse.Outcome)
    (read : List Token → Parse.Outcome) : Prop :=
  ∀ before ts, grow before ts = laidOut before (read ts)

section Lays

variable {grow : Array Node → List Token → TreeParse.Outcome}
  {read : List Token → Parse.Outcome}

theorem Lays.chainFrom (h : Lays grow read) (level : Parse.Level) (bound : Nat) (left : Expr)
    (before : Array Node) (ts : List Token) :
    TreeParse.chainFrom level grow bound (left.grown before) ts =
      laidOut before (Parse.chainFrom level read bound left ts) := by
  induction bound generalizing left ts with
  | zero => rfl
  | succ bound ih =>
    cases ts with
    | nil => rfl
    | cons t ts =>
      rw [TreeParse.chainFrom, Parse.chainFrom]
      cases level t.kind with
      | none => rfl
      | some op =>
        simp only [h (left.grown before).nodes ts]
        rcases read ts with f | ⟨right, rest⟩
        · rfl
        · -- The index of `left` still leads to its node, behind which those of `right` stand.
          simp only [laidOut, Grown.binary_grown]
          exact ih (.joined op t.span left right) rest

theorem Lays.chain (h : Lays grow read) (bound : Nat) (level : Parse.Level) :
    Lays (TreeParse.chain bound level grow) (Parse.chain bound level read) := by
  intro before ts
  rw [TreeParse.chain, Parse.chain, h before ts]
  rcases read ts with f | ⟨left, rest⟩
  · rfl
  · exact h.chainFrom level bound left before rest

theorem Lays.expression (h : Lays grow read) (bound : Nat) :
    Lays (TreeParse.expression bound grow) (Parse.expression bound read) := by
  have hfactor := h.chain bound Parse.factorLevel
  have hterm := hfactor.chain bound Parse.termLevel
  have hcomparison := hterm.chain bound Parse.comparisonLevel
  have hequality := hcomparison.chain bound Parse.equalityLevel
  have hand := hequality.chain bound Parse.andLevel
  exact hand.chain bound Parse.orLevel

variable (input : Parse.Input)

theorem lays_literal : Lays (TreeParse.literal input) (Parse.literal input) := by
  intro before ts
  unfold TreeParse.literal Parse.literal
  simp only
  cases (input.next ts).kind with
  | integer => cases readInt32? ((input.next ts).text input.source) <;> rfl
  | float =>
    rcases readFloat ((input.next ts).text input.source) with (_ | _) | x <;> rfl
  | word w => cases w <;> rfl
  | _ => rfl

/-- Parentheses add nothing to the nodes of what they enclose. -/
theorem close_grown (opening : Span) (inner : Expr) (before : Array Node) (ts : List Token) :
    TreeParse.close input opening (inner.grown before) ts =
      laidOut before (Parse.close input opening inner ts) := by
  unfold TreeParse.close Parse.close
  simp only
  split <;> rfl

/-- With no nesting left, or over parsers that agree with one level less, those of unary
expressions agree. -/
theorem lays_unary_step {depth : Nat}
    (hinner : ∀ m, depth = m + 1 → Lays (TreeParse.unary input m) (Parse.unary input m)) :
    Lays (TreeParse.unary input depth) (Parse.unary input depth) := by
  intro before ts
  unfold TreeParse.unary Parse.unary
  cases ts with
  | nil => exact lays_literal input before []
  | cons t ts =>
    simp only
    cases Parse.unaryOp? t.kind with
    | some op =>
      cases depth with
      | zero => rfl
      | succ m =>
        simp only [hinner m rfl before ts]
        rcases Parse.unary input m ts with f | ⟨operand, rest⟩
        · rfl
        · simp only [laidOut, Grown.unary_grown]
    | none =>
      by_cases hopening : t.kind = .mark .openParen
      · simp only [if_pos hopening]
        cases depth with
        | zero => rfl
        | succ m =>
          simp only [(hinner m rfl).expression input.bound before ts]
          rcases Parse.expression input.bound (Parse.unary input m) ts with f | ⟨inner, rest⟩
          · rfl
          · exact close_grown input t.span inner before rest
      · simp only [if_neg hopening]
        exact lays_literal input before (t :: ts)

theorem lays_unary (depth : Nat) :
    Lays (TreeParse.unary input depth) (Parse.unary input depth) := by
  induction depth with
  | zero =>
    apply lays_unary_step
    intro m hm
    contradiction
  | succ depth ih =>
    apply lays_unary_step
    rintro m ⟨⟩
    exact ih

end Lays

/-! ## Whole texts -/

/-- The tree that is parsed is the tree of the expression that is parsed. -/
theorem parseTreeTokens_eq (source : Bytes) (tokens : List Token) :
    parseTreeTokens source tokens = (parseTokens source tokens).map Tree.ofExpr := by
  unfold parseTreeTokens parseTokens
  simp only
  rw [(lays_unary (Parse.inputOf source tokens).1 maxNesting).expression]
  rcases Parse.expression _ _ (Parse.inputOf source tokens).2 with f | ⟨e, _ | ⟨t, rest⟩⟩ <;> rfl

theorem parseTree_eq (source : Bytes) : parseTree source = (parse source).map Tree.ofExpr :=
  parseTreeTokens_eq source (scan source).tokens

theorem parseTree_ok_iff {source : Bytes} {t : Tree} :
    parseTree source = .ok t ↔ ∃ e, parse source = .ok e ∧ t = Tree.ofExpr e := by
  rw [parseTree_eq]
  cases parse source with
  | error f => simp [Except.map]
  | ok e => simp [Except.map, eq_comm]

/-- A program from the expression of its text. -/
theorem compile_eq (source : Bytes) (limits : Limits) :
    compile source limits =
      match parse source with
      | .error f => .error (.parse f)
      | .ok e =>
        match (Tree.ofExpr e).typing.result with
        | .error f => .error (.type f)
        | .ok kind =>
          match (Tree.ofExpr e).generate limits with
          | .error f => .error (.capacity f)
          | .ok chunk => .ok ⟨source, chunk, kind, (scan source).faults⟩ := by
  unfold compile
  simp only
  rw [parseTreeTokens_eq, ← parse]
  cases parse source <;> rfl

end Abacus
