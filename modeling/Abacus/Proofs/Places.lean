import Abacus.Proofs.Generate.Code

/-!
# The places of nodes

A node of an expression has a place in the array of nodes, beside its place in the
code (`Expr.offsetOf`).  `Expr.indexOf` is the index of the node at the end of a path.
Every index belongs to a node (`exists_node_of_lt`), and reading a tree at the index of
a node gives the node (`exprAt?_indexOf`).
-/

namespace Abacus

namespace Expr

/-- The operands of an expression. -/
def operands : Expr → List Expr
  | .leaf .. => []
  | .unary _ _ _ e => [e]
  | .binary _ _ _ l r => [l, r]

/-- The index, among the nodes of an expression, of the node at the end of a path.  A
node stands behind the nodes of its operands. -/
def indexOf : Expr → NodePath → Nat
  | .unary _ _ _ e, [] => e.size
  | .binary _ _ _ l r, [] => l.size + r.size
  | .unary _ _ _ e, .left :: path => e.indexOf path
  | .binary _ _ _ l _, .left :: path => l.indexOf path
  | .binary _ _ _ l r, .right :: path => l.size + r.indexOf path
  | _, _ => 0

/-- Every index belongs to a node. -/
theorem exists_node_of_lt {e : Expr} {id : Nat} (h : id < e.size) :
    ∃ path n, e.node? path = some n ∧ e.indexOf path = id := by
  induction e generalizing id with
  | leaf k v span mark =>
    have hid : id = 0 := by simp only [size] at h; omega
    exact ⟨[], _, rfl, hid.symm⟩
  | unary op span mark e ih =>
    simp only [size] at h
    by_cases hid : id = e.size
    · exact ⟨[], _, rfl, hid.symm⟩
    · obtain ⟨path, n, hnode, hindex⟩ := ih (by omega : id < e.size)
      exact ⟨.left :: path, n, hnode, hindex⟩
  | binary op span mark l r ihl ihr =>
    simp only [size] at h
    by_cases hleft : id < l.size
    · obtain ⟨path, n, hnode, hindex⟩ := ihl hleft
      exact ⟨.left :: path, n, hnode, hindex⟩
    · by_cases hid : id = l.size + r.size
      · exact ⟨[], _, rfl, hid.symm⟩
      · obtain ⟨path, n, hnode, hindex⟩ := ihr (by omega : id - l.size < r.size)
        refine ⟨.right :: path, n, hnode, ?_⟩
        rw [indexOf, hindex]
        omega

/-- An array that holds an expression holds each of its nodes, ending at its index. -/
theorem holds_node {all : Array Node} {start : Nat} {e n : Expr} {path : NodePath}
    (h : Holds all start e) (hnode : e.node? path = some n) :
    ∃ first, Holds all first n ∧ first + n.size = start + e.indexOf path + 1 ∧
      n.size ≤ e.size := by
  induction e generalizing start path with
  | leaf k v span mark =>
    cases path with
    | nil =>
      cases hnode
      exact ⟨start, h, rfl, Nat.le_refl _⟩
    | cons side path => simp [node?] at hnode
  | unary op span mark e ih =>
    rcases path with _ | ⟨_ | _, path⟩
    · cases hnode
      exact ⟨start, h, by simp only [size, indexOf]; omega, Nat.le_refl _⟩
    · obtain ⟨first, hfirst, hplace, hsize⟩ := ih h.operand hnode
      exact ⟨first, hfirst, by simpa only [indexOf] using hplace, by simp only [size]; omega⟩
    · cases hnode
  | binary op span mark l r ihl ihr =>
    rcases path with _ | ⟨_ | _, path⟩
    · cases hnode
      exact ⟨start, h, by simp only [size, indexOf]; omega, Nat.le_refl _⟩
    · obtain ⟨first, hfirst, hplace, hsize⟩ := ihl h.left hnode
      exact ⟨first, hfirst, by simpa only [indexOf] using hplace, by simp only [size]; omega⟩
    · obtain ⟨first, hfirst, hplace, hsize⟩ := ihr h.right hnode
      exact ⟨first, hfirst, by simp only [indexOf]; omega, by simp only [size]; omega⟩

/-- Reading a tree at the index of a node gives the node. -/
theorem exprAt?_indexOf {e n : Expr} {path : NodePath} (hnode : e.node? path = some n) :
    Tree.exprAt? (Tree.ofExpr e).nodes (Tree.ofExpr e).nodes.size (e.indexOf path) = some n := by
  obtain ⟨first, hfirst, hplace, hsize⟩ := holds_node (Tree.holds_ofExpr e) hnode
  have hread := exprAt?_of_holds hfirst (Nat.le_trans hsize (Nat.le_of_eq (Tree.size_ofExpr e).symm))
  rwa [show first + n.size - 1 = e.indexOf path by omega] at hread

theorem indexOf_lt {e n : Expr} {path : NodePath} (hnode : e.node? path = some n) :
    e.indexOf path < e.size := by
  obtain ⟨first, hfirst, hplace, -⟩ := holds_node (Tree.holds_ofExpr e) hnode
  obtain ⟨before, after, hlength, hall⟩ := hfirst
  have htotal := congrArg List.length hall
  rw [Array.length_toList, Tree.size_ofExpr] at htotal
  simp only [List.length_append, nodes_length] at htotal
  omega

end Expr

end Abacus
