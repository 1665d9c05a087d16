import Abacus.Generate

/-!
# The nodes of a tree

`Tree.ofExpr` lays an expression out as an array of nodes, children first.
`Expr.nodes` is that layout as a list: the nodes of an expression whose first
node gets a given index.  `Holds` says that an array has the nodes of an
expression from an index on.  It passes from an expression to its operands, so
that every walk over the array can be compared with a recursion on the
expression.  Here this is done for reading: a tree gives its expression back
(`Tree.expr?_ofExpr`), and has its code (`Tree.generate_ofExpr`).
-/

namespace Abacus

namespace Expr

/-- The nodes of an expression, the first of which has the index `start`. -/
def nodes : Nat → Expr → List Node
  | _, .leaf k v span mark => [⟨.leaf k, none, none, v, span, mark⟩]
  | start, .unary op span mark e =>
    e.nodes start ++ [⟨.unary op, some (start + e.size - 1), none, .untagged, span, mark⟩]
  | start, .binary op span mark l r =>
    l.nodes start ++ r.nodes (start + l.size) ++
      [⟨.binary op, some (start + l.size - 1), some (start + l.size + r.size - 1), .untagged,
        span, mark⟩]

theorem size_pos (e : Expr) : 0 < e.size := by
  cases e <;> simp [size]

@[simp] theorem nodes_length (start : Nat) (e : Expr) : (e.nodes start).length = e.size := by
  induction e generalizing start with
  | leaf => rfl
  | unary op span mark e ih => simp [nodes, size, ih]
  | binary op span mark l r ihl ihr => simp [nodes, size, ihl, ihr, Nat.add_assoc]

/-- Appending the nodes of an expression to an array. -/
theorem appendNodes_toList (e : Expr) (before : Array Node) :
    (e.appendNodes before).toList = before.toList ++ e.nodes before.size := by
  induction e generalizing before with
  | leaf => simp [appendNodes, nodes]
  | unary op span mark e ih =>
    have hsize : (e.appendNodes before).size = before.size + e.size := by
      rw [← Array.length_toList, ih]
      simp
    simp [appendNodes, nodes, ih, hsize]
  | binary op span mark l r ihl ihr =>
    have hleft : (l.appendNodes before).size = before.size + l.size := by
      rw [← Array.length_toList, ihl]
      simp
    have hright : (r.appendNodes (l.appendNodes before)).size = before.size + l.size + r.size := by
      rw [← Array.length_toList, ihr]
      simp [hleft]
    simp [appendNodes, nodes, ihl, ihr, hleft, hright]

end Expr

/-! ## Arrays that hold an expression -/

/-- The array has the nodes of the expression from the index `start` on. -/
def Holds (all : Array Node) (start : Nat) (e : Expr) : Prop :=
  ∃ before after, before.length = start ∧ all.toList = before ++ e.nodes start ++ after

namespace Holds

variable {all : Array Node} {start : Nat}

/-- The node of the expression itself is the last of its nodes. -/
theorem root {e : Expr} (h : Holds all start e) :
    all[start + e.size - 1]? = (e.nodes start).getLast? := by
  obtain ⟨before, after, rfl, hall⟩ := h
  have hpos := e.size_pos
  rw [← Array.getElem?_toList, hall, List.append_assoc,
    List.getElem?_append_right (by omega), List.getElem?_append_left (by simp; omega),
    List.getLast?_eq_getElem?, Expr.nodes_length]
  congr 1
  omega

/-- An array that holds an expression holds whatever stands among its nodes. -/
theorem among {e part : Expr} {last : List Node} (h : Holds all start e) (first : List Node)
    (hnodes : e.nodes start = first ++ part.nodes (start + first.length) ++ last) :
    Holds all (start + first.length) part := by
  obtain ⟨before, after, hlength, hall⟩ := h
  refine ⟨before ++ first, last ++ after, by simp [hlength], ?_⟩
  rw [hall, hnodes]
  simp only [List.append_assoc]

theorem operand {op : UnaryOp} {span mark : Span} {e : Expr}
    (h : Holds all start (.unary op span mark e)) : Holds all start e :=
  h.among [] rfl

theorem left {op : BinaryOp} {span mark : Span} {l r : Expr}
    (h : Holds all start (.binary op span mark l r)) : Holds all start l :=
  h.among [] (by simp only [Expr.nodes, List.append_assoc]; rfl)

theorem right {op : BinaryOp} {span mark : Span} {l r : Expr}
    (h : Holds all start (.binary op span mark l r)) : Holds all (start + l.size) r := by
  have hright : Holds all (start + (l.nodes start).length) r :=
    h.among (l.nodes start) (by rw [Expr.nodes_length]; rfl)
  rwa [Expr.nodes_length] at hright

end Holds

/-! ## Reading an expression back -/

/-- A node that is held is read back, if the depth allows for all nodes. -/
theorem exprAt?_of_holds {all : Array Node} {start depth : Nat} {e : Expr}
    (h : Holds all start e) (hdepth : e.size ≤ depth) :
    Tree.exprAt? all depth (start + e.size - 1) = some e := by
  induction e generalizing start depth with
  | leaf k v span mark =>
    obtain ⟨depth, rfl⟩ : ∃ d, depth = d + 1 := ⟨depth - 1, by simp [Expr.size] at hdepth; omega⟩
    rw [Tree.exprAt?, h.root]
    simp [Expr.nodes]
  | unary op span mark e ih =>
    simp only [Expr.size] at hdepth
    obtain ⟨depth, rfl⟩ : ∃ d, depth = d + 1 := ⟨depth - 1, by omega⟩
    rw [Tree.exprAt?, h.root]
    simp [Expr.nodes, ih h.operand (by omega : e.size ≤ depth)]
  | binary op span mark l r ihl ihr =>
    simp only [Expr.size] at hdepth
    obtain ⟨depth, rfl⟩ : ∃ d, depth = d + 1 := ⟨depth - 1, by omega⟩
    rw [Tree.exprAt?, h.root]
    simp [Expr.nodes, ihl h.left (by omega : l.size ≤ depth),
      ihr h.right (by omega : r.size ≤ depth)]

/-! ## The tree of an expression -/

namespace Tree

theorem toList_ofExpr (e : Expr) : (ofExpr e).nodes.toList = e.nodes 0 := by
  simp [ofExpr, Expr.appendNodes_toList]

theorem size_ofExpr (e : Expr) : (ofExpr e).nodes.size = e.size := by
  rw [← Array.length_toList, toList_ofExpr, Expr.nodes_length]

theorem root_ofExpr (e : Expr) : (ofExpr e).root = some (e.size - 1) := by
  rw [← size_ofExpr e]
  rfl

/-- The tree holds the expression from the first node on. -/
theorem holds_ofExpr (e : Expr) : Holds (ofExpr e).nodes 0 e :=
  ⟨[], [], rfl, by simp [toList_ofExpr]⟩

/-- The expression of a tree is read back from it. -/
theorem expr?_ofExpr (e : Expr) : (ofExpr e).expr? = some e := by
  have hread := exprAt?_of_holds (holds_ofExpr e) (Nat.le_of_eq (size_ofExpr e).symm)
  rw [Nat.zero_add] at hread
  simpa [expr?, root_ofExpr] using hread

theorem isEmpty_ofExpr (e : Expr) : (ofExpr e).isEmpty = false := by
  have hsize : (ofExpr e).nodes.size ≠ 0 := by
    have hpos := e.size_pos
    rw [size_ofExpr]
    omega
  simp only [isEmpty, root_ofExpr, Option.isNone_some, Bool.or_false, Array.isEmpty,
    decide_eq_false hsize]

/-- A tree has the code of its expression. -/
theorem generate_ofExpr (e : Expr) (limits : Limits) :
    (ofExpr e).generate limits = e.generate limits := by
  simp [generate, isEmpty_ofExpr, expr?_ofExpr]

end Tree

end Abacus
