import Abacus.Proofs.Failing
import Abacus.Proofs.Generate.Evaluation
import Abacus.Proofs.Grammar.Parsing

/-!
# Generated code keeps the meaning

The chunk that is generated for a parsed expression, run on a machine with
enough room, gives what the expression evaluates to.  Where the evaluation stops
at a node, the machine stops at the instruction of that node with the same cause.

`properLeaves_of_parseTokens` supplies what the machine relies on: a parsed
literal holds a value of its own kind.  `stopsAt_of_eval` says where an
evaluation can stop, and `Generated.instruction` what the chunk holds there.
-/

namespace Abacus

/-! ## Parsed expressions -/

namespace Grammar

theorem properLeaves_readLeaf (source : Bytes) (t : Token) : (readLeaf source t).ProperLeaves := by
  unfold readLeaf readLeaf?
  split
  · cases readInt32? (t.text source) <;> simp [Expr.ProperLeaves, Expr.ofInt, Expr.ofBool]
  · cases (readFloat (t.text source)).toOption <;>
      simp [Expr.ProperLeaves, Expr.ofFloat, Expr.ofBool]
  · simp [Expr.ProperLeaves, Expr.ofBool]
  · simp [Expr.ProperLeaves, Expr.ofBool]
  · simp [Expr.ProperLeaves, Expr.ofBool]

mutual

/-- An expression has the leaves of its literals. -/
theorem Derivation.properLeaves {leaf : Token → Expr} (hleaf : ∀ t, (leaf t).ProperLeaves) :
    {p : Phrase} → (d : Derivation p) → (d.expr leaf).ProperLeaves
  | _, .literal t _ => hleaf t
  | _, .group _ inner _ _ _ => inner.properLeaves hleaf
  | _, .applied _ _ operand _ => operand.properLeaves hleaf
  | _, .primary d => d.properLeaves hleaf
  | _, .chain first more => more.properLeavesFrom hleaf (first.properLeaves hleaf)

theorem Repeated.properLeavesFrom {leaf : Token → Expr} (hleaf : ∀ t, (leaf t).ProperLeaves) :
    {r : Rank} → (more : Repeated r) → {left : Expr} → left.ProperLeaves →
      (more.exprFrom leaf left).ProperLeaves
  | _, .nil, _, hleft => hleft
  | _, .cons _ _ operand more _, _, hleft =>
    more.properLeavesFrom hleaf ⟨hleft, operand.properLeaves hleaf⟩

end

end Grammar

/-- Every leaf that the parser makes holds a value of its own kind. -/
theorem properLeaves_of_parseTokens {source : Bytes} {tokens : List Token} {e : Expr}
    (h : parseTokens source tokens = .ok e) : e.ProperLeaves := by
  obtain ⟨d, -, -, rfl⟩ := (Grammar.parseTokens_ok_iff source tokens e).mp h
  exact d.properLeaves (Grammar.properLeaves_readLeaf source)

/-! ## Where an evaluation stops -/

/-- Whether the cause is that operands do not fit their operator. -/
def FaultCause.isMismatch : FaultCause → Bool
  | .unaryMismatch _ _ | .binaryMismatch _ _ _ => true
  | _ => false

namespace FaultCause

theorem ofUnary_operand (op : UnaryOp) (v : Value) (x : OpFault) :
    (ofUnary op v x).isMismatch = true ∨ ofUnary op v x = .divisionByZero := by
  cases x
  · exact .inl rfl
  · exact .inr rfl

theorem ofBinary_operand (op : BinaryOp) (v w : Value) (x : OpFault) :
    (ofBinary op v w x).isMismatch = true ∨ ofBinary op v w x = .divisionByZero := by
  cases x
  · exact .inl rfl
  · exact .inr rfl

end FaultCause

namespace Expr

/-- An evaluation stops at an operator of the expression, because its operands
do not fit or an integer is divided by zero. -/
structure StopsAt (e : Expr) (f : EvalFault) : Prop where
  node : e.node? f.path = some f.node
  operator : f.node.isLeaf = false
  cause : f.cause.isMismatch = true ∨ f.cause = .divisionByZero

theorem stopsAt_of_eval {e : Expr} {f : EvalFault} (h : e.eval = .error f) : e.StopsAt f := by
  induction e generalizing f with
  | leaf k v span mark => simp [eval] at h
  | unary op span mark e ih =>
    rw [eval, bind_eq_error_iff] at h
    obtain h | ⟨v, -, h⟩ := h
    · obtain ⟨g, hg, rfl⟩ := mapError_eq_error_iff.mp h
      obtain ⟨hnode, hoperator, hcause⟩ := ih hg
      exact ⟨hnode, hoperator, hcause⟩
    · obtain ⟨x, -, rfl⟩ := mapError_eq_error_iff.mp h
      exact ⟨rfl, rfl, FaultCause.ofUnary_operand op v x⟩
  | binary op span mark l r ihl ihr =>
    rw [eval, bind_eq_error_iff] at h
    obtain h | ⟨v, -, h⟩ := h
    · obtain ⟨g, hg, rfl⟩ := mapError_eq_error_iff.mp h
      obtain ⟨hnode, hoperator, hcause⟩ := ihl hg
      exact ⟨hnode, hoperator, hcause⟩
    · rw [bind_eq_error_iff] at h
      obtain h | ⟨w, -, h⟩ := h
      · obtain ⟨g, hg, rfl⟩ := mapError_eq_error_iff.mp h
        obtain ⟨hnode, hoperator, hcause⟩ := ihr hg
        exact ⟨hnode, hoperator, hcause⟩
      · obtain ⟨x, -, rfl⟩ := mapError_eq_error_iff.mp h
        exact ⟨rfl, rfl, FaultCause.ofBinary_operand op v w x⟩

/-- The chunk holds the instruction of a node at its offset, and for an operator
the span of the node. -/
theorem Generated.instruction {e n : Expr} {c : Chunk} {path : NodePath} (hc : e.Generated c)
    (hnode : e.node? path = some n) (hoperator : n.isLeaf = false) :
    c.code[e.offsetOf path]? = some n.opcode.byte ∧
      c.spanAt? (e.offsetOf path) = some n.span := by
  constructor
  · rw [hc.code]
    exact code_offsetOf hnode 0 [Opcode.ret.byte]
  · have hspan := lastSpan?_offsetOf hnode hoperator 0
    rw [Nat.zero_add, ← hc.locations] at hspan
    exact hspan

end Expr

/-! ## Generating and running -/

/-- A parsed expression, well typed or not, whose code is generated and run with
enough room gives what it evaluates to.  Where it has no value, the machine stops
at the instruction of the operator that has none, for the same cause. -/
theorem execute_generate_eq_eval {source : Bytes} {e : Expr} {limits : Limits} {c : Chunk}
    (hparse : parse source = .ok e) (hgenerate : (Tree.ofExpr e).generate limits = .ok c)
    (m : Machine) (hroom : e.need ≤ m.capacity) :
    match e.eval with
    | .ok v => (m.execute c).1.result = .ok v
    | .error f =>
      (m.execute c).1.result =
          .error ⟨f.node.opcode.byte, e.offsetOf f.path, f.cause⟩ ∧
        (f.cause.isMismatch = true ∨ f.cause = .divisionByZero) ∧
        e.node? f.path = some f.node ∧
        c.code[e.offsetOf f.path]? = some f.node.opcode.byte ∧
        c.spanAt? (e.offsetOf f.path) = some f.node.span := by
  rw [Tree.generate_ofExpr] at hgenerate
  have hc : e.Generated c := Expr.generated_of_generate hgenerate
  have hrun := Expr.execute_generated (properLeaves_of_parseTokens hparse) hc m
  rw [Expr.evalOn_eq_eval (by omega)] at hrun
  cases heval : e.eval with
  | ok v =>
    rw [heval] at hrun
    exact hrun
  | error f =>
    rw [heval] at hrun
    obtain ⟨hnode, hoperator, hcause⟩ := Expr.stopsAt_of_eval heval
    exact ⟨hrun, hcause, hnode, hc.instruction hnode hoperator⟩

/-- The subtraction in `2-1/0` is never reached. -/
theorem execute_generate_eq_eval_division :
    let quotient : Expr := .joined .div ⟨3, 4⟩ (.ofInt 1 ⟨2, 3⟩) (.ofInt 0 ⟨4, 5⟩)
    let e : Expr := .joined .sub ⟨1, 2⟩ (.ofInt 2 ⟨0, 1⟩) quotient
    let c : Chunk :=
      { Chunk.empty with
        code? := some [0x10, 0x00, 0x10, 0x01, 0x10, 0x02, 0x53, 0x51, 0xf0]
        constants := [.int 2, .int 1, .int 0]
        locations := [⟨6, ⟨2, 5⟩⟩, ⟨7, ⟨0, 5⟩⟩] }
    let m := Machine.withDepth 3
    parse (utf8 "2-1/0") = .ok e ∧ (Tree.ofExpr e).generate {} = .ok c ∧ e.need ≤ m.capacity ∧
      e.eval = .error ⟨[.right], quotient, .divisionByZero⟩ ∧
      (m.execute c).1.result = .error ⟨0x53, 6, .divisionByZero⟩ := by
  intro quotient e c m
  have hparse : parse (utf8 "2-1/0") = .ok e := by decide +kernel
  have hgenerate : (Tree.ofExpr e).generate {} = .ok c := by decide +kernel
  have hroom : e.need ≤ m.capacity := by decide +kernel
  have heval : e.eval = .error ⟨[.right], quotient, .divisionByZero⟩ := by decide +kernel
  have hrun := execute_generate_eq_eval hparse hgenerate m hroom
  rw [heval] at hrun
  exact ⟨hparse, hgenerate, hroom, heval, hrun.1⟩

end Abacus
