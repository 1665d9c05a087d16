import Mathlib.Order.Interval.Set.Nat
import Abacus.Proofs.Places

/-!
# Subtrees are blocks

The nodes of a tree refer to each other by index.  `Tree.Below` follows these links
from a node up to its parents, and `Tree.subtree` collects what stands below a node.

An array that holds an expression from some index on has the nodes of the expression in
one block: the subtree of its last node is the block and nothing else (`below_iff`).  So
the links of a node can be told from its index and the sizes of the subtrees before it
(`linked_of_holds`), and no node has two parents (`IsChild.eq`).  `Tree.PostOrder` puts this
together for a whole tree.
-/

namespace Abacus

namespace Expr

/-- The node of the expression itself, where the first of its nodes has the index
`start`. -/
def top (start : Nat) : Expr → Node
  | .leaf k v span mark => ⟨.leaf k, none, none, v, span, mark⟩
  | .unary op span mark e =>
    ⟨.unary op, some (start + e.size - 1), none, .untagged, span, mark⟩
  | .binary op span mark l r =>
    ⟨.binary op, some (start + l.size - 1), some (start + l.size + r.size - 1), .untagged,
      span, mark⟩

@[simp] theorem span_top (start : Nat) (e : Expr) : (e.top start).span = e.span := by
  cases e <;> rfl

theorem getLast?_nodes (start : Nat) (e : Expr) :
    (e.nodes start).getLast? = some (e.top start) := by
  cases e <;> simp [nodes, top]

end Expr

theorem Holds.top {all : Array Node} {start : Nat} {e : Expr} (h : Holds all start e) :
    all[start + e.size - 1]? = some (e.top start) := by
  rw [h.root, Expr.getLast?_nodes]

namespace Tree

/-! ## Following the links -/

/-- The node with the index `j` is an operand of the node with the index `i`. -/
def IsChild (t : Tree) (j i : Nat) : Prop :=
  ∃ n, t.nodes[i]? = some n ∧ (n.left = some j ∨ n.right = some j)

/-- The node `j` is the node `i`, or the links lead from it up to `i`. -/
def Below (t : Tree) : Nat → Nat → Prop :=
  Relation.ReflTransGen t.IsChild

/-- The node with the index `i` and all nodes below it. -/
def subtree (t : Tree) (i : Nat) : Set Nat :=
  {j | t.Below j i}

/-- How many nodes the subtree of a node has. -/
noncomputable def subtreeSize (t : Tree) (i : Nat) : Nat :=
  (t.subtree i).ncard

/-- The links of the node `n` with the index `i`: its operands come right before it, the
left one before the whole subtree of the right one. -/
inductive Linked (t : Tree) (i : Nat) (n : Node) : Prop where
  | leaf {k : LeafKind} (hkind : n.kind = .leaf k) (hleft : n.left = none)
      (hright : n.right = none)
  | unary {op : UnaryOp} (hkind : n.kind = .unary op) (hroom : 1 ≤ i)
      (hleft : n.left = some (i - 1)) (hright : n.right = none)
  | binary {op : BinaryOp} (hkind : n.kind = .binary op) (hroom : 1 + t.subtreeSize (i - 1) ≤ i)
      (hleft : n.left = some (i - 1 - t.subtreeSize (i - 1)))
      (hright : n.right = some (i - 1))

/-- Every node stands right behind the nodes of its operands. -/
structure PostOrder (t : Tree) : Prop where
  /-- There are nodes, and the last of them is the root. -/
  root : 0 < t.nodes.size ∧ t.root = some (t.nodes.size - 1)
  linked : ∀ i n, t.nodes[i]? = some n → t.Linked i n
  /-- A subtree is a block of nodes that ends with its root. -/
  block : ∀ i, i < t.nodes.size → t.subtreeSize i ≤ i + 1 ∧
    t.subtree i = Set.Icc (i + 1 - t.subtreeSize i) i
  /-- Every node but the root is an operand of one node. -/
  parent : ∀ j, j + 1 < t.nodes.size → ∃! i, t.IsChild j i
  orphan : ∀ i, ¬t.IsChild (t.nodes.size - 1) i

/-! ## The block of an expression -/

section Blocks

variable {t : Tree} {first i j : Nat} {e : Expr}

/-- The children of the last node of a block are the last nodes of the operands' blocks. -/
theorem isChild_iff (h : Holds t.nodes first e) :
    t.IsChild j (first + e.size - 1) ↔
      match e with
      | .leaf .. => False
      | .unary _ _ _ o => j = first + o.size - 1
      | .binary _ _ _ l r => j = first + l.size - 1 ∨ j = first + l.size + r.size - 1 := by
  unfold IsChild
  rw [h.top]
  cases e <;> simp [Expr.top, eq_comm]

/-- What stands below the last node of a block is the block. -/
theorem below_iff (h : Holds t.nodes first e) :
    t.Below j (first + e.size - 1) ↔ first ≤ j ∧ j < first + e.size := by
  induction e generalizing first with
  | leaf k v span mark =>
    rw [Below, Relation.ReflTransGen.cases_tail_iff]
    have hnone : ∀ m, ¬t.IsChild m (first + 1 - 1) := fun m => (isChild_iff h).mp
    simp only [Expr.size, hnone, and_false, exists_false, or_false]
    omega
  | unary op span mark o ih =>
    have hpos := o.size_pos
    have hoperand := ih h.operand
    have hchild := fun m => isChild_iff (j := m) h
    rw [Below, Relation.ReflTransGen.cases_tail_iff]
    simp only [hchild, exists_eq_right]
    change _ ∨ t.Below j (first + o.size - 1) ↔ _
    rw [hoperand]
    simp only [Expr.size]
    omega
  | binary op span mark l r ihl ihr =>
    have hleft := ihl h.left
    have hright := ihr h.right
    have hchild := fun m => isChild_iff (j := m) h
    rw [Below, Relation.ReflTransGen.cases_tail_iff]
    simp only [hchild, and_or_left, exists_or, exists_eq_right]
    change _ ∨ t.Below j (first + l.size - 1) ∨ t.Below j (first + l.size + r.size - 1) ↔ _
    rw [hleft, hright]
    simp only [Expr.size]
    omega

theorem subtree_eq (h : Holds t.nodes first e) :
    t.subtree (first + e.size - 1) = Set.Icc first (first + e.size - 1) := by
  have hpos := e.size_pos
  ext j
  show t.Below j (first + e.size - 1) ↔ _
  rw [below_iff h, Set.mem_Icc]
  omega

theorem subtreeSize_eq (h : Holds t.nodes first e) :
    t.subtreeSize (first + e.size - 1) = e.size := by
  have hpos := e.size_pos
  rw [subtreeSize, subtree_eq h, Set.ncard_Icc_nat]
  omega

theorem linked_of_holds (h : Holds t.nodes first e) :
    t.Linked (first + e.size - 1) (e.top first) := by
  cases e with
  | leaf k v span mark => exact .leaf rfl rfl rfl
  | unary op span mark o =>
    have hpos := o.size_pos
    simp only [Expr.size]
    refine .unary rfl (by omega) ?_ rfl
    show some _ = some _
    congr 1
  | binary op span mark l r =>
    have hleft := l.size_pos
    have hright := r.size_pos
    have hsize := subtreeSize_eq h.right
    have hbefore : first + (l.size + r.size + 1) - 1 - 1 = first + l.size + r.size - 1 := by omega
    simp only [Expr.size]
    refine .binary rfl ?_ ?_ ?_
    · rw [hbefore, hsize]
      omega
    · show some _ = some _
      rw [hbefore, hsize]
      congr 1
      omega
    · show some _ = some _
      rw [hbefore]

end Blocks

/-! ## Parents -/

section Parents

variable {e : Expr} {i i' j : Nat}

/-- Every node is the last one of the block of an expression inside the tree's. -/
theorem exists_holds (hi : i < (ofExpr e).nodes.size) :
    ∃ first path n, e.node? path = some n ∧ Holds (ofExpr e).nodes first n ∧
      i = first + n.size - 1 := by
  rw [size_ofExpr] at hi
  obtain ⟨path, n, hnode, hindex⟩ := Expr.exists_node_of_lt hi
  obtain ⟨first, hfirst, hplace, -⟩ := Expr.holds_node (holds_ofExpr e) hnode
  exact ⟨first, path, n, hnode, hfirst, by omega⟩

theorem IsChild.lt_size {t : Tree} (h : t.IsChild j i) : i < t.nodes.size := by
  obtain ⟨n, hn, -⟩ := h
  exact (Array.getElem?_eq_some_iff.mp hn).1

/-- Operands come before their operator. -/
theorem IsChild.lt (h : (ofExpr e).IsChild j i) : j < i := by
  obtain ⟨first, path, n, -, hholds, rfl⟩ := exists_holds h.lt_size
  have hchild := (isChild_iff hholds).mp h
  cases n with
  | leaf k v span mark => exact hchild.elim
  | unary op span mark o =>
    have hpos := o.size_pos
    simp only [Expr.size] at hchild ⊢
    omega
  | binary op span mark l r =>
    have hleft := l.size_pos
    have hright := r.size_pos
    simp only [Expr.size] at hchild ⊢
    omega

/-- Of two parents of a node, neither comes before the other. -/
theorem IsChild.le (h : (ofExpr e).IsChild j i) (h' : (ofExpr e).IsChild j i') : i' ≤ i := by
  by_contra hlt
  have hbefore := h.lt
  obtain ⟨first, path, n, -, hholds, rfl⟩ := exists_holds h'.lt_size
  have hchild := (isChild_iff hholds).mp h'
  cases n with
  | leaf k v span mark => exact hchild
  | unary op span mark o =>
    simp only [Expr.size] at hchild hlt
    omega
  | binary op span mark l r =>
    have hpos := l.size_pos
    simp only [Expr.size] at hchild hlt
    rcases hchild with rfl | rfl
    · -- The other parent stands in the block of the right operand, and the node with it.
      have hinside : (ofExpr e).Below i (first + l.size + r.size - 1) :=
        (below_iff hholds.right).mpr (by omega)
      have hbelow := (below_iff hholds.right).mp (.head h hinside)
      omega
    · omega

theorem IsChild.eq (h : (ofExpr e).IsChild j i) (h' : (ofExpr e).IsChild j i') : i = i' :=
  Nat.le_antisymm (h'.le h) (h.le h')

theorem exists_isChild (hj : j + 1 < (ofExpr e).nodes.size) : ∃ i, (ofExpr e).IsChild j i := by
  have hroot : (ofExpr e).Below j (0 + e.size - 1) :=
    (below_iff (holds_ofExpr e)).mpr (by rw [size_ofExpr] at hj; omega)
  rcases hroot.cases_head with hlast | ⟨i, hchild, -⟩
  · rw [size_ofExpr] at hj
    omega
  · exact ⟨i, hchild⟩

end Parents

/-- The tree of every expression is in post order. -/
theorem postOrder_ofExpr (e : Expr) : (ofExpr e).PostOrder := by
  refine ⟨⟨?_, ?_⟩, ?_, ?_, ?_, ?_⟩
  · rw [size_ofExpr]
    exact e.size_pos
  · rw [size_ofExpr, root_ofExpr]
  · intro i n hn
    obtain ⟨first, path, m, -, hholds, rfl⟩ :=
      exists_holds (Array.getElem?_eq_some_iff.mp hn).1
    rw [hholds.top] at hn
    cases hn
    exact linked_of_holds hholds
  · intro i hi
    obtain ⟨first, path, m, -, hholds, rfl⟩ := exists_holds hi
    have hpos := m.size_pos
    rw [subtreeSize_eq hholds, subtree_eq hholds]
    refine ⟨by omega, ?_⟩
    congr 1
    omega
  · intro j hj
    obtain ⟨i, hchild⟩ := exists_isChild hj
    exact ⟨i, hchild, fun i' hchild' => hchild'.eq hchild⟩
  · intro i hchild
    have hlt := hchild.lt
    have hsize := hchild.lt_size
    omega

end Tree

end Abacus
