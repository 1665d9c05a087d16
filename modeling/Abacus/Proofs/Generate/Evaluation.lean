import Abacus.Proofs.Generate.Code
import Abacus.Proofs.Machine.Stepping

/-!
# The meaning of an expression

`Expr.eval` is the value of an expression: its operands are evaluated from left
to right, then the operator is applied.  Where an operator has no result, the
evaluation stops with the node, the way to it from the root, and the cause.

The machine computes the same with a bounded stack.  `Expr.evalOn` adds the
bound: a leaf that finds the stack full is a fault.  `runFrom_code` says that
running the code of an expression is evaluating it with the bound, for every
stack, every following code and every place of the code, and `evalOn_eq_eval`
that the bound is not felt when the stack has room for `Expr.need` values.
-/

namespace Abacus

/-- Where and why an evaluation stops. -/
structure EvalFault where
  path : NodePath
  /-- The node that has no value. -/
  node : Expr
  cause : FaultCause
  deriving DecidableEq

namespace EvalFault

/-- The same fault, seen from the operator above. -/
def under (side : Side) (f : EvalFault) : EvalFault :=
  { f with path := side :: f.path }

end EvalFault

namespace Expr

/-- The value of an expression, or the first node that has none. -/
def eval : Expr → Except EvalFault Value
  | .leaf _ v _ _ => .ok v
  | .unary op span mark e => do
    let v ← e.eval.mapError (EvalFault.under .left)
    (op.apply v).mapError fun x => ⟨[], .unary op span mark e, .ofUnary op v x⟩
  | .binary op span mark l r => do
    let v ← l.eval.mapError (EvalFault.under .left)
    let w ← r.eval.mapError (EvalFault.under .right)
    (op.apply v w).mapError fun x => ⟨[], .binary op span mark l r, .ofBinary op v w x⟩

/-- The value of an expression on a stack that holds `height` of at most
`capacity` values.  The right operand finds the left one on the stack. -/
def evalOn (capacity : Nat) : Nat → Expr → Except EvalFault Value
  | height, .leaf k v span mark =>
    if capacity ≤ height then .error ⟨[], .leaf k v span mark, .stackOverflow capacity⟩ else .ok v
  | height, .unary op span mark e => do
    let v ← (e.evalOn capacity height).mapError (EvalFault.under .left)
    (op.apply v).mapError fun x => ⟨[], .unary op span mark e, .ofUnary op v x⟩
  | height, .binary op span mark l r => do
    let v ← (l.evalOn capacity height).mapError (EvalFault.under .left)
    let w ← (r.evalOn capacity (height + 1)).mapError (EvalFault.under .right)
    (op.apply v w).mapError fun x => ⟨[], .binary op span mark l r, .ofBinary op v w x⟩

/-- How many values the stack holds at most while an expression is evaluated. -/
def need : Expr → Nat
  | .leaf .. => 1
  | .unary _ _ _ e => e.need
  | .binary _ _ _ l r => max l.need (1 + r.need)

/-- A stack with enough room does not change the value. -/
theorem evalOn_eq_eval {capacity height : Nat} {e : Expr} (hroom : height + e.need ≤ capacity) :
    e.evalOn capacity height = e.eval := by
  induction e generalizing height with
  | leaf k v span mark =>
    simp only [need] at hroom
    rw [evalOn, if_neg (by omega), eval]
  | unary op span mark e ih =>
    simp only [need] at hroom
    rw [evalOn, eval, ih hroom]
  | binary op span mark l r ihl ihr =>
    simp only [need] at hroom
    rw [evalOn, eval, ihl (by omega), ihr (by omega)]

/-- Every leaf holds a value of its own kind. -/
def ProperLeaves : Expr → Prop
  | .leaf .int v _ _ => ∃ i, v = .int i
  | .leaf .float v _ _ => ∃ x, v = .float x
  | .leaf .bool v _ _ => ∃ b, v = .bool b
  | .leaf (.unknown _) _ _ _ => False
  | .unary _ _ _ e => e.ProperLeaves
  | .binary _ _ _ l r => l.ProperLeaves ∧ r.ProperLeaves

/-! ## Running the code -/

/-- The pool has the constants of the expression from the index `first` on. -/
def Supplied (pool : List Value) (first : Nat) (e : Expr) : Prop :=
  ∃ before after, before.length = first ∧ pool = before ++ e.literals ++ after

theorem Supplied.left {pool : List Value} {first : Nat} {op : BinaryOp} {span mark : Span}
    {l r : Expr} (h : Supplied pool first (.binary op span mark l r)) : Supplied pool first l := by
  obtain ⟨before, after, hlength, hpool⟩ := h
  exact ⟨before, r.literals ++ after, hlength, by simp [hpool, literals]⟩

theorem Supplied.right {pool : List Value} {first : Nat} {op : BinaryOp} {span mark : Span}
    {l r : Expr} (h : Supplied pool first (.binary op span mark l r)) :
    Supplied pool (first + l.literals.length) r := by
  obtain ⟨before, after, hlength, hpool⟩ := h
  exact ⟨before ++ l.literals, after, by simp [hlength], by simp [hpool, literals]⟩

/-- A constant is found under the index that its byte stands for. -/
theorem Supplied.constant {pool : List Value} {first : Nat} {e : Expr} {v : Value}
    (h : Supplied pool first e) (hliterals : e.literals = [v])
    (hindexed : pool.length ≤ maxConstants) : pool[(UInt8.ofNat first).toNat]? = some v := by
  obtain ⟨before, after, hlength, hpool⟩ := h
  have hless : first < 256 := by
    rw [hpool, hliterals] at hindexed
    simp [maxConstants] at hindexed
    omega
  have hbyte : (UInt8.ofNat first).toNat = first := by
    rw [UInt8.toNat_ofNat']
    omega
  rw [hbyte, hpool, hliterals, ← hlength]
  simp

/-- Running the code of an expression is evaluating it: the run goes on behind
the code with the value on the stack, or ends at the instruction of the node
that has no value. -/
theorem runFrom_code {pool : List Value} {capacity first : Nat} {e : Expr}
    (hleaves : e.ProperLeaves) (hpool : Supplied pool first e)
    (hindexed : pool.length ≤ maxConstants) (offset : Nat) (s : Stack) (rest : Bytes) :
    (runFrom pool capacity offset s (e.code first ++ rest)).result =
      match e.evalOn capacity s.length with
      | .ok v => (runFrom pool capacity (offset + e.codeSize) (v :: s) rest).result
      | .error f => .error ⟨f.node.opcode.byte, offset + e.offsetOf f.path, f.cause⟩ := by
  induction e generalizing first offset s rest with
  | leaf k v span mark =>
    by_cases hk : k = .bool
    · subst hk
      obtain ⟨b, rfl⟩ := hleaves
      have htruth : Value.truth (.bool b) = b := by cases b <;> rfl
      rw [code, htruth, evalOn, List.singleton_append]
      by_cases hfull : capacity ≤ s.length
      · rw [if_pos hfull, runFrom_truth_full (Opcode.ofByte?_byte _) hfull]
        simp only [opcode, htruth, offsetOf, Nat.add_zero]
      · rw [if_neg hfull, runFrom_truth (Opcode.ofByte?_byte _) (by omega)]
        rfl
    · have hindex := hpool.constant (literals_constant hk v span mark) hindexed
      rw [code_constant hk, evalOn, List.cons_append, List.singleton_append]
      by_cases hfull : capacity ≤ s.length
      · rw [if_pos hfull, runFrom_const_full (Opcode.ofByte?_byte _) hindex hfull]
        simp only [opcode_constant hk, offsetOf, Nat.add_zero]
      · rw [if_neg hfull, runFrom_const (Opcode.ofByte?_byte _) hindex (by omega)]
        simp only [codeSize_constant hk]
  | unary op span mark e ih =>
    rw [code, List.append_assoc, ih hleaves hpool, evalOn]
    cases heval : e.evalOn capacity s.length with
    | error f => rfl
    | ok v =>
      simp only [mapError_ok, ok_bind, List.singleton_append]
      cases happly : op.apply v with
      | error x =>
        simp only [runFrom_unary_error (Opcode.ofByte?_byte _) happly]
        rfl
      | ok r =>
        simp only [runFrom_unary (Opcode.ofByte?_byte _) happly]
        rfl
  | binary op span mark l r ihl ihr =>
    rw [code, List.append_assoc, List.append_assoc, ihl hleaves.1 hpool.left, evalOn]
    cases hleft : l.evalOn capacity s.length with
    | error f => rfl
    | ok v =>
      simp only [mapError_ok, ok_bind]
      -- The right operand runs with the value of the left one under it.
      rw [ihr hleaves.2 hpool.right, List.length_cons]
      cases hright : r.evalOn capacity (s.length + 1) with
      | error f => simp [EvalFault.under, offsetOf, Nat.add_assoc]
      | ok w =>
        simp only [mapError_ok, ok_bind, List.singleton_append]
        cases happly : op.apply v w with
        | error x =>
          simp only [runFrom_binary_error (Opcode.ofByte?_byte _) happly, mapError_error, opcode,
            offsetOf, Nat.add_assoc]
        | ok x =>
          simp only [runFrom_binary (Opcode.ofByte?_byte _) happly, mapError_ok, codeSize,
            Nat.add_assoc]

/-- Running a generated chunk is evaluating its expression on an empty stack. -/
theorem execute_generated {e : Expr} {c : Chunk} (hleaves : e.ProperLeaves) (hc : e.Generated c)
    (m : Machine) :
    (m.execute c).1.result =
      match e.evalOn m.capacity 0 with
      | .ok v => .ok v
      | .error f => .error ⟨f.node.opcode.byte, e.offsetOf f.path, f.cause⟩ := by
  have hpool : Supplied e.literals 0 e := ⟨[], [], rfl, by simp⟩
  rw [Machine.execute_result, hc.constants, hc.code,
    runFrom_code hleaves hpool hc.indexed 0 [] [Opcode.ret.byte]]
  rw [List.length_nil]
  cases heval : e.evalOn m.capacity 0 with
  | error f => simp only [Nat.zero_add]
  | ok v => exact runFrom_return (Opcode.ofByte?_byte .ret)

end Expr

end Abacus
