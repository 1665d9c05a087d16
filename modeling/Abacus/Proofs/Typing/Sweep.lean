import Abacus.Typing
import Abacus.Proofs.Arena
import Abacus.Proofs.Failing

/-!
# The sweep over a tree

The kinds of a tree are found in one sweep over its nodes.  `Expr.typeOf` finds
the kind of an expression by recursion, and `Expr.foundKinds` lists the kinds of
its nodes up to the first fault.  `sweep_nodes` says that the sweep does what
these two say, wherever the nodes of the expression stand in the array, and
`typing_ofExpr` says so for a whole tree.
-/

namespace Abacus

namespace Expr

/-- The kind of an expression.  The first operator whose operands do not fit is
a fault. -/
def typeOf : Expr → Except TypeFault Kind
  | .leaf _ v _ _ => .ok v.kind
  | .unary op _ _ e => do
    let k ← e.typeOf
    Typing.unaryKind op k e.span
  | .binary op _ _ l r => do
    let k ← l.typeOf
    let j ← r.typeOf
    Typing.binaryKind op k j l.span r.span

/-- The kinds of the nodes of an expression, in order, up to the first fault. -/
def foundKinds : Expr → List Kind
  | .leaf _ v _ _ => [v.kind]
  | .unary op span mark e =>
    e.foundKinds ++ (Expr.unary op span mark e).typeOf.toOption.toList
  | .binary op span mark l r =>
    l.foundKinds ++ (if l.typeOf.isOk then r.foundKinds else []) ++
      (Expr.binary op span mark l r).typeOf.toOption.toList

/-- Every node of an expression that has a kind gets one. -/
theorem length_foundKinds {e : Expr} {k : Kind} (h : e.typeOf = .ok k) :
    e.foundKinds.length = e.size := by
  induction e generalizing k with
  | leaf => rfl
  | unary op span mark e ih =>
    cases hkind : e.typeOf with
    | error f => simp [typeOf, hkind] at h
    | ok j => simp [foundKinds, h, ih hkind, size]
  | binary op span mark l r ihl ihr =>
    cases hleft : l.typeOf with
    | error f => simp [typeOf, hleft] at h
    | ok i =>
      cases hright : r.typeOf with
      | error f => simp [typeOf, hleft, hright] at h
      | ok j =>
        simp [foundKinds, h, hleft, ihl hleft, ihr hright, size, Nat.add_assoc]

/-- The kind of an expression is that of its last node. -/
theorem getLast?_foundKinds {e : Expr} {k : Kind} (h : e.typeOf = .ok k) :
    e.foundKinds.getLast? = some k := by
  cases e with
  | leaf =>
    cases h
    rfl
  | unary => simp [foundKinds, h]
  | binary => simp [foundKinds, h]

end Expr

/-- The kind of an operand is found at its index. -/
theorem kindAt_append {e : Expr} {k : Kind} (h : e.typeOf = .ok k) (kinds : Array Kind)
    (after : List Kind) :
    Typing.kindAt (kinds ++ (e.foundKinds ++ after).toArray) (some (kinds.size + e.size - 1)) =
      k := by
  have hpos := e.size_pos
  have hlength := Expr.length_foundKinds h
  have hlast := Expr.getLast?_foundKinds h
  rw [List.getLast?_eq_getElem?, hlength] at hlast
  have hget : (kinds ++ (e.foundKinds ++ after).toArray)[kinds.size + e.size - 1]? = some k := by
    rw [Array.getElem?_append_right (by omega), List.getElem?_toArray,
      List.getElem?_append_left (by omega), ← hlast]
    congr 1
    omega
  simp [Typing.kindAt, Array.getD_eq_getD_getElem?, hget]

/-- The span of an operand is found at its index. -/
theorem Holds.spanAt {all : Array Node} {start : Nat} {e : Expr} (h : Holds all start e) :
    Typing.spanAt all (some (start + e.size - 1)) = e.span := by
  have hroot := h.root
  cases e <;> simp_all [Typing.spanAt, Expr.nodes, Expr.span]

/-- Sweeping over the nodes of an expression finds their kinds, and goes on
behind them unless there is a fault among them. -/
theorem sweep_nodes {all : Array Node} {e : Expr} (kinds : Array Kind) (rest : List Node)
    (h : Holds all kinds.size e) :
    Typing.sweep all (e.nodes kinds.size ++ rest) kinds =
      match e.typeOf with
      | .ok _ => Typing.sweep all rest (kinds ++ e.foundKinds.toArray)
      | .error f => (kinds ++ e.foundKinds.toArray, some f) := by
  induction e generalizing kinds rest with
  | leaf k v span mark =>
    simp [Expr.nodes, Expr.typeOf, Expr.foundKinds, Typing.sweep, Typing.nodeKind]
  | unary op span mark e ih =>
    rw [Expr.nodes, List.append_assoc, ih _ _ h.operand]
    cases hkind : e.typeOf with
    | error f => simp [Expr.typeOf, Expr.foundKinds, hkind]
    | ok k =>
      have hat : Typing.kindAt (kinds ++ e.foundKinds.toArray)
          (some (kinds.size + e.size - 1)) = k := by
        simpa using kindAt_append hkind kinds []
      simp only [List.singleton_append, Typing.sweep, Typing.nodeKind, hat, h.operand.spanAt]
      cases hunary : Typing.unaryKind op k e.span with
      | error f =>
        simp [Expr.typeOf, Expr.foundKinds, hkind, hunary]
      | ok j =>
        simp [Expr.typeOf, Expr.foundKinds, hkind, hunary]
  | binary op span mark l r ihl ihr =>
    rw [Expr.nodes, List.append_assoc, List.append_assoc, ihl _ _ h.left]
    cases hleft : l.typeOf with
    | error f =>
      simp [Expr.typeOf, Expr.foundKinds, hleft]
    | ok k =>
      have hsize : (kinds ++ l.foundKinds.toArray).size = kinds.size + l.size := by
        simp [Expr.length_foundKinds hleft]
      have hswept := ihr (kinds ++ l.foundKinds.toArray)
        (⟨.binary op, some (kinds.size + l.size - 1), some (kinds.size + l.size + r.size - 1),
          .untagged, span, mark⟩ :: rest) (by rw [hsize]; exact h.right)
      rw [hsize] at hswept
      simp only [List.singleton_append, hswept]
      cases hright : r.typeOf with
      | error f =>
        simp [Expr.typeOf, Expr.foundKinds, hleft, hright]
      | ok j =>
        -- Both operands have their kinds; the sweep now reaches the operator.
        have hatLeft : Typing.kindAt (kinds ++ l.foundKinds.toArray ++ r.foundKinds.toArray)
            (some (kinds.size + l.size - 1)) = k := by
          simpa using kindAt_append hleft kinds r.foundKinds
        have hatRight : Typing.kindAt (kinds ++ l.foundKinds.toArray ++ r.foundKinds.toArray)
            (some (kinds.size + l.size + r.size - 1)) = j := by
          simpa [hsize] using kindAt_append hright (kinds ++ l.foundKinds.toArray) []
        simp only [Typing.sweep, Typing.nodeKind, hatLeft, hatRight, h.left.spanAt,
          h.right.spanAt]
        cases hbinary : Typing.binaryKind op k j l.span r.span with
        | error f =>
          simp [Expr.typeOf, Expr.foundKinds, hleft, hright, hbinary]
        | ok i =>
          simp [Expr.typeOf, Expr.foundKinds, hleft, hright, hbinary]

/-- The sweep over the tree of an expression finds the kind of the expression,
and the kinds of its nodes up to the first fault. -/
theorem Tree.typing_ofExpr (e : Expr) :
    (Tree.ofExpr e).typing = ⟨e.foundKinds.toArray, e.typeOf⟩ := by
  have hswept := sweep_nodes #[] [] (Tree.holds_ofExpr e)
  simp only [Array.size_empty, List.append_nil, ← Tree.toList_ofExpr, Array.empty_append]
    at hswept
  rw [Tree.typing, Tree.isEmpty_ofExpr, hswept]
  cases hkind : e.typeOf with
  | error f => rfl
  | ok k =>
    have hat := kindAt_append hkind #[] []
    rw [Array.size_empty, Nat.zero_add, List.append_nil, Array.empty_append] at hat
    simp [Typing.sweep, Tree.root_ofExpr, hat]

end Abacus
