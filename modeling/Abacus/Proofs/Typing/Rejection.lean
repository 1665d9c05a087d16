import Abacus.Proofs.Places
import Abacus.Proofs.Typing.Stopping

/-!
# What the sweep rejects

A tree that has no kind is rejected at one of its nodes.  This module compares that
node with the one at which a run of the tree's code stops.

* `Tree.RejectedAt` says where the sweep over a tree ends, and
  `Tree.rejectedAt_of_typing` that it ends at the first node whose operands do not
  fit.
* `Expr.foundKinds_indexOf` says that the nodes before it have their kinds.
* `Expr.FirstFault` says what is known of the first operator that does not fit: the
  evaluation stops there with a mismatch, or before it at a division by zero.  It is
  carried from an operand to the operator above it, one lemma for each operand.  The
  array and the code both put a node behind its operands and the left operand before
  the right one, so the first node in one order is the first in the other.
* `typing_agrees_with_execute` puts this together for a parsed text.
-/

namespace Abacus

/-! ## Where the sweep ends -/

/-- The sweep ends at the node with the index `id`: every node before it has passed
its check with the kinds of the nodes before, and its own check gives the fault. -/
structure Tree.RejectedAt (t : Tree) (id : Nat) (f : TypeFault) : Prop where
  size_eq : t.typing.kinds.size = id
  passed : ∀ i < id, ∃ n k, t.nodes[i]? = some n ∧ t.typing.kinds[i]? = some k ∧
    Typing.nodeKind t.nodes (t.typing.kinds.take i) n = .ok k
  rejected : ∃ n, t.nodes[id]? = some n ∧ Typing.nodeKind t.nodes t.typing.kinds n = .error f

/-- A sweep that ends with a fault has passed some nodes and found their kinds, and
the next node does not pass. -/
theorem sweep_eq_error {all : Array Node} {rest : List Node} {kinds kinds' : Array Kind}
    {f : TypeFault} (h : Typing.sweep all rest kinds = (kinds', some f)) :
    ∃ (passed later : List Node) (n : Node) (found : List Kind),
      rest = passed ++ n :: later ∧ kinds' = kinds ++ found.toArray ∧
      found.length = passed.length ∧ Typing.nodeKind all kinds' n = .error f ∧
      ∀ (i : Nat) (k : Kind), found[i]? = some k → ∃ n, passed[i]? = some n ∧
        Typing.nodeKind all (kinds ++ (found.take i).toArray) n = .ok k := by
  induction rest generalizing kinds with
  | nil => simp [Typing.sweep] at h
  | cons n rest ih =>
    rw [Typing.sweep] at h
    cases hcheck : Typing.nodeKind all kinds n with
    | error g =>
      rw [hcheck] at h
      cases h
      exact ⟨[], rest, n, [], rfl, by simp, rfl, hcheck, by simp⟩
    | ok k =>
      rw [hcheck] at h
      obtain ⟨passed, later, n', found, hrest, hkinds, hlength, hfault, hpassed⟩ := ih h
      refine ⟨n :: passed, later, n', k :: found, by rw [hrest]; rfl, ?_, by simp [hlength],
        hfault, ?_⟩
      · rw [hkinds]
        simp
      · intro i j hj
        cases i with
        | zero =>
          obtain rfl : k = j := by simpa using hj
          exact ⟨n, rfl, by simpa using hcheck⟩
        | succ i =>
          obtain ⟨n'', hget, hkind⟩ := hpassed i j (by simpa using hj)
          exact ⟨n'', by simpa using hget, by simpa using hkind⟩

/-- A tree that has nodes and no kind is rejected at the first node whose check
fails. -/
theorem Tree.rejectedAt_of_typing {t : Tree} {f : TypeFault} (hnodes : t.isEmpty = false)
    (h : t.typing.result = .error f) : t.RejectedAt t.typing.kinds.size f := by
  unfold Tree.typing at h
  rw [hnodes] at h
  cases hsweep : Typing.sweep t.nodes t.nodes.toList #[] with
  | mk kinds fault? =>
    have htyping : t.typing.kinds = kinds := by
      unfold Tree.typing
      rw [hnodes, hsweep]
      cases fault? <;> rfl
    rw [hsweep] at h
    cases fault? with
    | none => cases h
    | some g =>
      obtain rfl : g = f := by simpa using h
      obtain ⟨passed, later, n, found, hrest, hkinds, hlength, hfault, hpassed⟩ :=
        sweep_eq_error hsweep
      rw [Array.empty_append] at hkinds
      have hsize : kinds.size = passed.length := by simp [hkinds, hlength]
      refine ⟨rfl, ?_, n, ?_, ?_⟩
      · intro i hi
        rw [htyping, hsize, ← hlength] at hi
        obtain ⟨n', hget, hkind⟩ := hpassed i found[i] (by simp [hi])
        refine ⟨n', found[i], ?_, ?_, ?_⟩
        · rw [← Array.getElem?_toList, hrest, List.getElem?_append_left (by omega), hget]
        · simp [htyping, hkinds, hi]
        · rw [htyping, hkinds]
          simpa using hkind
      · rw [htyping, hsize, ← Array.getElem?_toList, hrest]
        simp
      · rw [htyping]
        exact hfault

namespace Expr

/-! ## The kinds before the fault -/

theorem length_foundKinds_le (e : Expr) : e.foundKinds.length ≤ e.size := by
  have hlast (x : Except TypeFault Kind) : x.toOption.toList.length ≤ 1 := by
    cases x <;> simp
  induction e with
  | leaf => exact Nat.le_refl 1
  | unary op span mark e ih =>
    have := hlast (Expr.unary op span mark e).typeOf
    simp only [foundKinds, List.length_append, size]
    omega
  | binary op span mark l r ihl ihr =>
    have := hlast (Expr.binary op span mark l r).typeOf
    simp only [foundKinds, List.length_append, size]
    split
    · omega
    · simp only [List.length_nil]
      omega

/-! An operator is not reached when there is a fault among its operands. -/

section Unreached

variable {e l r : Expr} {f : TypeFault} {k : Kind} (span mark : Span)

theorem foundKinds_unary (op : UnaryOp) (h : e.typeOf = .error f) :
    (Expr.unary op span mark e).foundKinds = e.foundKinds := by
  simp [foundKinds, typeOf, h]

theorem foundKinds_left (op : BinaryOp) (h : l.typeOf = .error f) :
    (Expr.binary op span mark l r).foundKinds = l.foundKinds := by
  simp [foundKinds, typeOf, h]

theorem foundKinds_right (op : BinaryOp) (hl : l.typeOf = .ok k) (hr : r.typeOf = .error f) :
    (Expr.binary op span mark l r).foundKinds = l.foundKinds ++ r.foundKinds := by
  simp [foundKinds, typeOf, hl, hr]

end Unreached

/-- The kind of an expression is found at its last node. -/
theorem foundKinds_last {e : Expr} {k : Kind} (h : e.typeOf = .ok k) :
    e.foundKinds[e.size - 1]? = some k := by
  rw [← length_foundKinds h, ← List.getLast?_eq_getElem?]
  exact getLast?_foundKinds h

/-! A node that the sweep over an expression reaches is reached in its operand. -/

section Reached

variable {e l r : Expr} {id : Nat} (span mark : Span)

theorem reached_operand (op : UnaryOp) (hid : id < e.size)
    (h : id < (Expr.unary op span mark e).foundKinds.length) : id < e.foundKinds.length := by
  cases hkind : e.typeOf with
  | error f => rwa [foundKinds_unary span mark op hkind] at h
  | ok k => rwa [length_foundKinds hkind]

theorem reached_left (op : BinaryOp) (hid : id < l.size)
    (h : id < (Expr.binary op span mark l r).foundKinds.length) : id < l.foundKinds.length := by
  cases hleft : l.typeOf with
  | error f => rwa [foundKinds_left span mark op hleft] at h
  | ok k => rwa [length_foundKinds hleft]

/-- The right operand is reached only behind a left one that has a kind. -/
theorem reached_right (op : BinaryOp) (hid : id < r.size)
    (h : l.size + id < (Expr.binary op span mark l r).foundKinds.length) :
    (∃ k, l.typeOf = .ok k) ∧ id < r.foundKinds.length := by
  cases hleft : l.typeOf with
  | error f =>
    have hle := l.length_foundKinds_le
    rw [foundKinds_left span mark op hleft] at h
    omega
  | ok k =>
    refine ⟨⟨k, rfl⟩, ?_⟩
    cases hright : r.typeOf with
    | error f =>
      rw [foundKinds_right span mark op hleft hright, List.length_append,
        length_foundKinds hleft] at h
      omega
    | ok j => rwa [length_foundKinds hright]

/-- An expression whose last node is reached has a kind. -/
theorem reached_last (h : e.size - 1 < e.foundKinds.length) : ∃ k, e.typeOf = .ok k := by
  cases hkind : e.typeOf with
  | ok k => exact ⟨k, rfl⟩
  | error f =>
    exfalso
    cases e with
    | leaf k v span mark => cases hkind
    | unary op span mark e =>
      have hle := e.length_foundKinds_le
      simp only [foundKinds, hkind, size, toOption_error, Option.toList_none,
        List.append_nil] at h
      omega
    | binary op span mark l r =>
      have hle := l.length_foundKinds_le
      have hle' := r.length_foundKinds_le
      simp only [foundKinds, hkind, size, toOption_error, Option.toList_none, List.append_nil,
        List.length_append] at h
      split at h
      · omega
      · simp only [List.length_nil] at h
        omega

end Reached

/-- The sweep gives every node before the fault its kind. -/
theorem foundKinds_indexOf {e n : Expr} {path : NodePath} (hnode : e.node? path = some n)
    (hbefore : e.indexOf path < e.foundKinds.length) :
    ∃ k, n.typeOf = .ok k ∧ e.foundKinds[e.indexOf path]? = some k := by
  induction e generalizing path with
  | leaf k v span mark =>
    cases path with
    | nil =>
      cases hnode
      exact ⟨v.kind, rfl, rfl⟩
    | cons side path => simp [node?] at hnode
  | unary op span mark e ih =>
    rcases path with _ | ⟨_ | _, path⟩
    · cases hnode
      obtain ⟨k, hkind⟩ := reached_last (e := .unary op span mark e) hbefore
      exact ⟨k, hkind, foundKinds_last hkind⟩
    · have hlt : e.indexOf path < e.size := indexOf_lt hnode
      have hreached := reached_operand span mark op hlt hbefore
      obtain ⟨k, hkind, hget⟩ := ih hnode hreached
      refine ⟨k, hkind, ?_⟩
      rw [foundKinds, indexOf, List.getElem?_append_left hreached, hget]
    · cases hnode
  | binary op span mark l r ihl ihr =>
    rcases path with _ | ⟨_ | _, path⟩
    · cases hnode
      obtain ⟨k, hkind⟩ := reached_last (e := .binary op span mark l r) hbefore
      exact ⟨k, hkind, foundKinds_last hkind⟩
    · have hlt : l.indexOf path < l.size := indexOf_lt hnode
      have hreached := reached_left span mark op hlt hbefore
      obtain ⟨k, hkind, hget⟩ := ihl hnode hreached
      refine ⟨k, hkind, ?_⟩
      rw [foundKinds, indexOf, List.append_assoc, List.getElem?_append_left hreached, hget]
    · have hlt : r.indexOf path < r.size := indexOf_lt hnode
      obtain ⟨⟨j, hleft⟩, hreached⟩ := reached_right span mark op hlt hbefore
      obtain ⟨k, hkind, hget⟩ := ihr hnode hreached
      refine ⟨k, hkind, ?_⟩
      have hlength := length_foundKinds hleft
      have hskip : l.size + r.indexOf path - l.foundKinds.length = r.indexOf path := by omega
      simp only [foundKinds, hleft, isOk_ok, if_true, indexOf]
      rw [List.append_assoc, List.getElem?_append_right (by omega), hskip,
        List.getElem?_append_left hreached, hget]

/-! ## The first fault -/

/-- The first node whose operands do not fit, and what becomes of the evaluation. -/
structure FirstFault (e : Expr) (f : TypeFault) (path : NodePath) (n : Expr) : Prop where
  typed : e.typeOf = .error f
  node : e.node? path = some n
  operator : n.isLeaf = false
  /-- All nodes before it in the array have their kinds. -/
  index : e.indexOf path = e.foundKinds.length
  spans : f.spans = n.operands.map Expr.span
  stops : e.EndsBy e.eval (fun cause => cause.isMismatch = true) path n

section FirstFaults

variable {e l r n : Expr} {f : TypeFault} {path : NodePath} {k j : Kind} (span mark : Span)

/-- The operand of a unary operator has the first fault. -/
theorem FirstFault.operand (op : UnaryOp) (h : e.FirstFault f path n) :
    (Expr.unary op span mark e).FirstFault f (.left :: path) n := by
  refine ⟨by simp [typeOf, h.typed], h.node, h.operator, ?_, h.spans, ?_⟩
  · rw [foundKinds_unary span mark op h.typed]
    exact h.index
  · exact h.stops.above 0 (fun g hg => by simp [eval, hg]) (fun _ => (Nat.zero_add _).symm)

/-- The unary operator itself is the first fault. -/
theorem FirstFault.ofUnary (op : UnaryOp) (hkind : e.typeOf = .ok k)
    (hfault : Typing.unaryKind op k e.span = .error f) :
    (Expr.unary op span mark e).FirstFault f [] (.unary op span mark e) := by
  have htyped : (Expr.unary op span mark e).typeOf = .error f := by simp [typeOf, hkind, hfault]
  have hyields := eval_of_typeOf hkind
  unfold Typing.unaryKind at hfault
  split at hfault
  · cases hfault
  · next hfit =>
    cases hfault
    refine ⟨htyped, rfl, rfl, ?_, rfl, ?_⟩
    · simp [foundKinds, htyped, indexOf, length_foundKinds hkind]
    · cases heval : e.eval with
      | ok v =>
        rw [heval] at hyields
        obtain rfl : v.kind = k := hyields
        have happly : op.apply v = .error .mismatch := UnaryOp.apply_mismatch (by simpa using hfit)
        exact ⟨⟨[], .unary op span mark e, .unaryMismatch op v.kind⟩,
          by simp [eval, heval, happly, FaultCause.ofUnary], .inl ⟨rfl, rfl, rfl⟩⟩
      | error g =>
        rw [heval] at hyields
        exact ⟨g.under .left, by simp [eval, heval],
          .inr ⟨hyields, offsetOf_lt (stopsAt_of_eval heval).node⟩⟩

/-- The left operand of a binary operator has the first fault. -/
theorem FirstFault.left (op : BinaryOp) (h : l.FirstFault f path n) :
    (Expr.binary op span mark l r).FirstFault f (.left :: path) n := by
  refine ⟨by simp [typeOf, h.typed], h.node, h.operator, ?_, h.spans, ?_⟩
  · rw [foundKinds_left span mark op h.typed]
    exact h.index
  · exact h.stops.above 0 (fun g hg => by simp [eval, hg]) (fun _ => (Nat.zero_add _).symm)

/-- The left operand has a kind, and the right one has the first fault. -/
theorem FirstFault.right (op : BinaryOp) (hleft : l.typeOf = .ok k) (h : r.FirstFault f path n) :
    (Expr.binary op span mark l r).FirstFault f (.right :: path) n := by
  refine ⟨by simp [typeOf, hleft, h.typed], h.node, h.operator, ?_, h.spans, ?_⟩
  · rw [foundKinds_right span mark op hleft h.typed, List.length_append, length_foundKinds hleft,
      ← h.index]
    rfl
  · cases heval : l.eval with
    | error g =>
      apply endsBy_of_left hleft heval (by simp [eval, heval])
      show l.codeSize ≤ l.codeSize + r.offsetOf path
      omega
    | ok v => exact h.stops.above l.codeSize (fun g hg => by simp [eval, heval, hg]) (fun _ => rfl)

theorem binaryKind_eq_error {op : BinaryOp} {s t : Span}
    (h : Typing.binaryKind op k j s t = .error f) :
    f.spans = [s, t] ∧ ¬(k = j ∧ op.operands.accepts k = true) := by
  unfold Typing.binaryKind at h
  split_ifs at h with hkinds hfit
  · cases h
    exact ⟨rfl, fun hboth => hkinds hboth.1⟩
  · cases h
    exact ⟨rfl, fun hboth => hfit hboth.2⟩

/-- The binary operator itself is the first fault. -/
theorem FirstFault.ofBinary (op : BinaryOp) (hleft : l.typeOf = .ok k) (hright : r.typeOf = .ok j)
    (hfault : Typing.binaryKind op k j l.span r.span = .error f) :
    (Expr.binary op span mark l r).FirstFault f [] (.binary op span mark l r) := by
  have htyped : (Expr.binary op span mark l r).typeOf = .error f := by
    simp [typeOf, hleft, hright, hfault]
  obtain ⟨hspans, hfit⟩ := binaryKind_eq_error hfault
  refine ⟨htyped, rfl, rfl, ?_, hspans, ?_⟩
  · simp [foundKinds, htyped, hleft, indexOf, length_foundKinds hleft, length_foundKinds hright]
  · cases heval : l.eval with
    | error g =>
      apply endsBy_of_left hleft heval (by simp [eval, heval])
      show l.codeSize ≤ l.codeSize + r.codeSize
      omega
    | ok v =>
      have hyields := eval_of_typeOf hleft
      rw [heval] at hyields
      obtain rfl : v.kind = k := hyields
      have hyields' := eval_of_typeOf hright
      cases heval' : r.eval with
      | error g =>
        rw [heval'] at hyields'
        have hlt : r.offsetOf g.path < r.codeSize := offsetOf_lt (stopsAt_of_eval heval').node
        refine ⟨g.under .right, by simp [eval, heval, heval'], .inr ⟨hyields', ?_⟩⟩
        show l.codeSize + r.offsetOf g.path < l.codeSize + r.codeSize
        omega
      | ok w =>
        rw [heval'] at hyields'
        obtain rfl : w.kind = j := hyields'
        have happly : op.apply v w = .error .mismatch := BinaryOp.apply_mismatch hfit
        exact ⟨⟨[], .binary op span mark l r, .binaryMismatch op v.kind w.kind⟩,
          by simp [eval, heval, heval', happly, FaultCause.ofBinary], .inl ⟨rfl, rfl, rfl⟩⟩

end FirstFaults

/-- An expression without a kind has a first fault. -/
theorem exists_firstFault {e : Expr} {f : TypeFault} (h : e.typeOf = .error f) :
    ∃ path n, e.FirstFault f path n := by
  induction e generalizing f with
  | leaf k v span mark => cases h
  | unary op span mark e ih =>
    rw [typeOf, bind_eq_error_iff] at h
    obtain h | ⟨k, hkind, h⟩ := h
    · obtain ⟨path, n, hfirst⟩ := ih h
      exact ⟨_, n, hfirst.operand span mark op⟩
    · exact ⟨_, _, .ofUnary span mark op hkind h⟩
  | binary op span mark l r ihl ihr =>
    rw [typeOf, bind_eq_error_iff] at h
    obtain h | ⟨k, hleft, h⟩ := h
    · obtain ⟨path, n, hfirst⟩ := ihl h
      exact ⟨_, n, hfirst.left span mark op⟩
    · rw [bind_eq_error_iff] at h
      obtain h | ⟨j, hright, h⟩ := h
      · obtain ⟨path, n, hfirst⟩ := ihr h
        exact ⟨_, n, .right span mark op hleft hfirst⟩
      · exact ⟨_, _, .ofBinary span mark op hleft hright h⟩

end Expr

/-! ## Parsed texts -/

/-- What a rejected tree comes to when its code is run all the same: the node that is
rejected, the places of the report on it, and where the machine stops. -/
structure Rejection (source : Bytes) (e : Expr) (c : Chunk) (result : Except RuntimeFault Value)
    (f : TypeFault) (path : NodePath) (n : Expr) : Prop where
  /-- The node is the first one in the array whose check fails. -/
  rejectedAt : (Tree.ofExpr e).RejectedAt (e.indexOf path) f
  exprAt : Tree.exprAt? (Tree.ofExpr e).nodes (Tree.ofExpr e).nodes.size (e.indexOf path) = some n
  node : e.node? path = some n
  /-- The chunk has the node's instruction at the offset of the node. -/
  instruction : c.code[e.offsetOf path]? = some n.opcode.byte ∧
    c.spanAt? (e.offsetOf path) = some n.span
  spans : (f.diagnostic source).spans = n.operands.map Expr.span
  /-- The machine stops at the node, or before it at a division by zero. -/
  stops : ∃ g, result = .error g ∧
    (g.cause.isMismatch = true ∧ g.op = n.opcode.byte ∧ g.offset = e.offsetOf path ∨
      g.cause = .divisionByZero ∧ g.offset < e.offsetOf path)
  /-- The nodes before have the kinds of their values. -/
  before : ∀ id < e.indexOf path, ∃ n' k,
    Tree.exprAt? (Tree.ofExpr e).nodes (Tree.ofExpr e).nodes.size id = some n' ∧
      (Tree.ofExpr e).typing.kinds[id]? = some k ∧ Expr.Yields k n'.eval

/-- A parsed text is rejected just for what would stop the machine.  If its tree has no
kind, its code stops at the instruction of the first node that does not fit, or before
it at a division by zero; if the tree has a kind, no run ends with a mismatch. -/
theorem typing_agrees_with_execute {source : Bytes} {e : Expr} {limits : Limits} {c : Chunk}
    (hparse : parse source = .ok e) (hgenerate : (Tree.ofExpr e).generate limits = .ok c)
    (m : Machine) (hroom : e.need ≤ m.capacity) :
    match (Tree.ofExpr e).typing.result with
    | .ok _ => ∀ g, (m.execute c).1.result = .error g → g.cause.isMismatch = false
    | .error f => ∃ path n, Rejection source e c (m.execute c).1.result f path n := by
  rw [Tree.generate_ofExpr] at hgenerate
  have hc : e.Generated c := Expr.generated_of_generate hgenerate
  have hrun := Expr.execute_generated (properLeaves_of_parseTokens hparse) hc m
  rw [Expr.evalOn_eq_eval (by omega)] at hrun
  have htyping := Tree.typing_ofExpr e
  cases hresult : (Tree.ofExpr e).typing.result with
  | ok k =>
    rw [htyping] at hresult
    intro g hg
    have hyields := Expr.eval_of_typeOf hresult
    rw [hrun] at hg
    cases heval : e.eval with
    | ok v =>
      rw [heval] at hg
      cases hg
    | error g' =>
      rw [heval] at hg hyields
      cases hg
      show g'.cause.isMismatch = false
      rw [show g'.cause = .divisionByZero from hyields]
      rfl
  | error f =>
    have hrejected := Tree.rejectedAt_of_typing (Tree.isEmpty_ofExpr e) hresult
    rw [htyping] at hresult
    obtain ⟨path, n, hfirst⟩ := Expr.exists_firstFault hresult
    have hsize : (Tree.ofExpr e).typing.kinds.size = e.indexOf path := by
      rw [htyping, hfirst.index]
      simp
    rw [hsize] at hrejected
    refine ⟨path, n, hrejected, Expr.exprAt?_indexOf hfirst.node, hfirst.node,
      hc.instruction hfirst.node hfirst.operator, hfirst.spans, ?_, ?_⟩
    · obtain ⟨g, heval, hg⟩ := hfirst.stops
      rw [heval] at hrun
      refine ⟨_, hrun, ?_⟩
      rcases hg with ⟨hcause, rfl, rfl⟩ | ⟨hcause, hoffset⟩
      · exact .inl ⟨hcause, rfl, rfl⟩
      · exact .inr ⟨hcause, hoffset⟩
    · intro id hid
      have hlt : e.indexOf path < e.size := Expr.indexOf_lt hfirst.node
      obtain ⟨path', n', hnode, rfl⟩ := Expr.exists_node_of_lt (by omega : id < e.size)
      rw [hfirst.index] at hid
      obtain ⟨k, hkind, hget⟩ := Expr.foundKinds_indexOf hnode hid
      refine ⟨n', k, Expr.exprAt?_indexOf hnode, ?_, Expr.eval_of_typeOf hkind⟩
      rw [htyping]
      simpa using hget

/-- In `1/0+true` the sum is rejected, and a run of the code does not get that far. -/
theorem typing_agrees_with_execute_division :
    let source := utf8 "1/0+true"
    let quotient : Expr := .joined .div ⟨1, 2⟩ (.ofInt 1 ⟨0, 1⟩) (.ofInt 0 ⟨2, 3⟩)
    let e : Expr := .joined .add ⟨3, 4⟩ quotient (.ofBool true ⟨4, 8⟩)
    let c : Chunk :=
      { Chunk.empty with
        code? := some [0x10, 0x00, 0x10, 0x01, 0x53, 0x12, 0x50, 0xf0]
        constants := [.int 1, .int 0]
        locations := [⟨4, ⟨0, 3⟩⟩, ⟨6, ⟨0, 8⟩⟩] }
    let m := Machine.withDepth 2
    let f : TypeFault := .different .add .int .bool ⟨0, 3⟩ ⟨4, 8⟩
    parse source = .ok e ∧ (Tree.ofExpr e).generate {} = .ok c ∧ e.need ≤ m.capacity ∧
      (Tree.ofExpr e).typing.result = .error f ∧
      (m.execute c).1.result = .error ⟨0x53, 4, .divisionByZero⟩ ∧
      ∃ path n, Rejection source e c (m.execute c).1.result f path n := by
  intro source quotient e c m f
  have hparse : parse source = .ok e := by decide +kernel
  have hgenerate : (Tree.ofExpr e).generate {} = .ok c := by decide +kernel
  have hroom : e.need ≤ m.capacity := by decide +kernel
  have hresult : (Tree.ofExpr e).typing.result = .error f := by decide +kernel
  have hrejection := typing_agrees_with_execute hparse hgenerate m hroom
  rw [hresult] at hrejection
  exact ⟨hparse, hgenerate, hroom, hresult, by decide +kernel, hrejection⟩

end Abacus
