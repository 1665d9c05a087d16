import Mathlib.Data.Int.ConditionallyCompleteOrder
import Mathlib.Data.List.MinMax
import Abacus.Editor.Server
import Abacus.Proofs.Tree.Spans
import Abacus.Proofs.Typing.Rejection

/-!
# The expression under the cursor

A hover describes the shortest of the nodes whose spans hold an offset.  In the tree of a
parsed text two spans that hold the same offset are nested, and the shorter one belongs
to a node below the other.  So the shortest one is below all others (`Tree.Innermost`),
and there is one as soon as the root holds the offset (`Tree.innermost?_isSome_iff_root`).

The kind that is shown is the one that the sweep found for the node, which is the kind of
the expression there (`Tree.exists_kindOf`).
-/

namespace Abacus

namespace Tree

/-- The node `n` has the index `i`, and its span holds the offset. -/
def Contains (t : Tree) (offset : Int) (i : Nat) (n : Node) : Prop :=
  t.nodes[i]? = some n ∧ n.span.contains offset = true

/-- The span of the root holds the offset. -/
def RootContains (t : Tree) (offset : Int) : Prop :=
  ∃ id n, t.root = some id ∧ t.Contains offset id n

/-- The node holds the offset, and it is below every other node that does. -/
structure Innermost (t : Tree) (offset : Int) (id : Nat) : Prop where
  contains : ∃ n, t.Contains offset id n
  below : ∀ j m, t.Contains offset j m → j ≠ id → t.Below id j

/-! ## The shortest span -/

/-- The nodes that hold an offset, with the lengths of their spans. -/
def hits (t : Tree) (offset : Int) : List (Nat × Int) :=
  (List.range t.nodes.size).filterMap fun id =>
    match t.nodes[id]? with
    | some n => if n.span.contains offset then some (id, n.span.length) else none
    | none => none

section Shortest

variable {t : Tree} {offset : Int} {id : Nat}

theorem mem_hits {length : Int} :
    (id, length) ∈ t.hits offset ↔ ∃ n, t.Contains offset id n ∧ n.span.length = length := by
  simp only [hits, List.mem_filterMap, List.mem_range]
  constructor
  · rintro ⟨i, -, hi⟩
    split at hi
    · next n hn =>
      split at hi
      · next hcontains =>
        cases hi
        exact ⟨n, ⟨hn, hcontains⟩, rfl⟩
      · cases hi
    · cases hi
  · rintro ⟨n, ⟨hn, hcontains⟩, hlength⟩
    refine ⟨id, (Array.getElem?_eq_some_iff.mp hn).1, ?_⟩
    simp only [hn, if_pos hcontains, hlength]

/-- The search keeps the first of the shortest spans. -/
theorem innermost?_eq (t : Tree) (offset : Int) :
    t.innermost? offset = ((t.hits offset).argmin Prod.snd).map Prod.fst := by
  show ((t.hits offset).foldl _ none).map Prod.fst =
    ((t.hits offset).foldl (List.argAux fun b c => b.2 < c.2) none).map Prod.fst
  congr 2
  funext best hit
  cases best <;> rfl

/-- Something is found just if some span holds the offset. -/
theorem innermost?_isSome_iff :
    (t.innermost? offset).isSome = true ↔ ∃ i n, t.Contains offset i n := by
  rw [innermost?_eq, Option.isSome_map, Option.isSome_iff_ne_none, Ne, List.argmin_eq_none]
  constructor
  · intro hne
    obtain ⟨⟨i, length⟩, hmem⟩ := List.exists_mem_of_ne_nil _ hne
    obtain ⟨n, hn, -⟩ := mem_hits.mp hmem
    exact ⟨i, n, hn⟩
  · rintro ⟨i, n, hn⟩
    exact List.ne_nil_of_mem (mem_hits.mpr ⟨n, hn, rfl⟩)

/-- No span that holds the offset is shorter than the one that is found. -/
theorem shortest_of_innermost? (h : t.innermost? offset = some id) :
    ∃ n, t.Contains offset id n ∧
      ∀ j m, t.Contains offset j m → n.span.length ≤ m.span.length := by
  rw [innermost?_eq, Option.map_eq_some_iff] at h
  obtain ⟨⟨i, length⟩, hargmin, rfl⟩ := h
  obtain ⟨n, hn, rfl⟩ := mem_hits.mp (List.argmin_mem hargmin)
  refine ⟨n, hn, fun j m hm => ?_⟩
  have hmem : (j, m.span.length) ∈ t.hits offset := mem_hits.mpr ⟨m, hm, rfl⟩
  have hle : (i, n.span.length).2 ≤ (j, m.span.length).2 := List.le_of_mem_argmin hmem hargmin
  exact hle

end Shortest

end Tree

/-! ## Nested spans -/

namespace Span

variable {s t : Span} {offset : Int}

theorem Inside.length_lt (h : s.Inside t) : s.length < t.length := by
  obtain ⟨hstart, hstop, hne⟩ := h
  have hends : ¬(s.start = t.start ∧ s.stop = t.stop) := by
    rintro ⟨hs, ht⟩
    obtain ⟨start, stop⟩ := s
    obtain ⟨start', stop'⟩ := t
    exact hne (by rw [show start = start' from hs, show stop = stop' from ht])
  unfold length
  omega

theorem not_apart_of_contains (hs : s.contains offset = true) (ht : t.contains offset = true) :
    ¬s.Apart t := by
  rw [contains_iff] at hs ht
  unfold Apart
  omega

end Span

namespace Tree

section Parsed

variable {source : Bytes} {e : Expr} {offset : Int} {id : Nat}

/-- In a tree whose spans nest as its nodes do, the shortest span that holds an offset
belongs to the innermost node. -/
theorem Spanned.innermost {t : Tree} (h : t.Spanned source)
    (hfound : t.innermost? offset = some id) :
    t.Innermost offset id := by
  obtain ⟨n, hn, hshortest⟩ := shortest_of_innermost? hfound
  refine ⟨⟨n, hn⟩, fun j m hm hne => ?_⟩
  rcases h.laminar id j n m hn.1 hm.1 hne.symm with hapart | hinside | hinside
  · exact absurd hapart (Span.not_apart_of_contains hn.2 hm.2)
  · exact ((h.nested id j n m hn.1 hm.1).mp hinside).2
  · have hlt := hinside.length_lt
    have hle := hshortest j m hm
    omega

/-- Of two innermost nodes each would be below the other. -/
theorem Spanned.innermost_unique {t : Tree} {id' : Nat} (h : t.Spanned source)
    (hid : t.Innermost offset id) (hid' : t.Innermost offset id') : id = id' := by
  by_contra hne
  obtain ⟨n, hn⟩ := hid.contains
  obtain ⟨m, hm⟩ := hid'.contains
  have hinside := (h.nested id id' n m hn.1 hm.1).mpr ⟨hne, hid.below id' m hm (Ne.symm hne)⟩
  have hinside' := (h.nested id' id m n hm.1 hn.1).mpr ⟨Ne.symm hne, hid'.below id n hn hne⟩
  exact hinside.asymm hinside'

theorem spanned_of_parse (hparse : parse source = .ok e) : (ofExpr e).Spanned source :=
  spanned_of_written (Grammar.written_of_parse hparse) (Grammar.spans_leaves_of_parse hparse)

theorem innermost?_eq_some_iff (hparse : parse source = .ok e) :
    (ofExpr e).innermost? offset = some id ↔ (ofExpr e).Innermost offset id := by
  have hspanned := spanned_of_parse hparse
  refine ⟨hspanned.innermost, fun hid => ?_⟩
  obtain ⟨n, hn⟩ := hid.contains
  obtain ⟨id', hfound⟩ := Option.isSome_iff_exists.mp (innermost?_isSome_iff.mpr ⟨id, n, hn⟩)
  rw [hfound, hspanned.innermost_unique hid (hspanned.innermost hfound)]

/-- The root holds every offset that some node holds. -/
theorem rootContains_of_contains {i : Nat} {n : Node} (hparse : parse source = .ok e)
    (h : (ofExpr e).Contains offset i n) : (ofExpr e).RootContains offset := by
  have hroot := (holds_ofExpr e).top
  have hsize := (Array.getElem?_eq_some_iff.mp h.1).1
  rw [size_ofExpr] at hsize
  have hbelow : (ofExpr e).Below i (0 + e.size - 1) :=
    (below_iff (holds_ofExpr e)).mpr ⟨Nat.zero_le i, by omega⟩
  have hwithin := within_of_below (fun _ => Grammar.start_lt_stop_of_mem)
    (Grammar.written_of_parse hparse) h.1 hroot hbelow
  refine ⟨0 + e.size - 1, _, ?_, hroot, ?_⟩
  · rw [root_ofExpr, Nat.zero_add]
  · have hcontains := Span.contains_iff.mp h.2
    rw [Span.contains_iff]
    omega

theorem innermost?_isSome_iff_root (hparse : parse source = .ok e) :
    ((ofExpr e).innermost? offset).isSome = true ↔ (ofExpr e).RootContains offset := by
  rw [innermost?_isSome_iff]
  constructor
  · rintro ⟨i, n, hn⟩
    exact rootContains_of_contains hparse hn
  · rintro ⟨i, n, -, hn⟩
    exact ⟨i, n, hn⟩

/-- The sweep gives a node the kind of the expression there. -/
theorem exists_kindOf {k : Kind} (htype : (ofExpr e).typing.result = .ok k)
    (hid : id < (ofExpr e).nodes.size) :
    ∃ x, exprAt? (ofExpr e).nodes (ofExpr e).nodes.size id = some x ∧
      x.typeOf = .ok ((ofExpr e).typing.kindOf id) := by
  rw [typing_ofExpr] at htype ⊢
  rw [size_ofExpr] at hid
  have hlength : id < e.foundKinds.length := by
    rwa [Expr.length_foundKinds htype]
  obtain ⟨path, x, hnode, rfl⟩ := Expr.exists_node_of_lt hid
  obtain ⟨j, hkind, hget⟩ := Expr.foundKinds_indexOf hnode hlength
  refine ⟨x, Expr.exprAt?_indexOf hnode, ?_⟩
  rw [hkind, Typed.kindOf, Array.getD_eq_getD_getElem?, List.getElem?_toArray, hget]
  rfl

end Parsed

end Tree

/-! ## Hovers -/

/-- The hover shows the text of the node, the kind and the range of the node, and what it
says on the whole document behind these. -/
structure Hover.Describes (h : Hover) (text : Bytes) (n : Node) (kind : Kind) : Prop where
  text_eq : ∃ more, h.text =
    utf8 "`" ++ Bytes.trim (n.span.slice text) ++ utf8 "` : **" ++ kind.name ++ utf8 "**" ++ more
  range_eq : h.range = text.rangeOf n.span

namespace Server

variable {text : Bytes} {p : Position} {n : Node} {kind : Kind}

theorem nodeAt?_eq_some_iff :
    nodeAt? text p = some (n, kind) ↔
      ∃ e k id, parse text = .ok e ∧ (Tree.ofExpr e).typing.result = .ok k ∧
        (Tree.ofExpr e).innermost? (text.offsetAt p) = some id ∧
        (Tree.ofExpr e).nodes[id]? = some n ∧ (Tree.ofExpr e).typing.kindOf id = kind := by
  unfold nodeAt?
  rw [parseTree_eq]
  cases hparse : parse text with
  | error f => simp [Except.map]
  | ok e =>
    cases htype : (Tree.ofExpr e).typing.result with
    | error f => simp [Except.map, htype]
    | ok k => simp [Except.map, htype, Option.bind_eq_some_iff]

theorem hoverText_isSome (s : Server) (text : Bytes) (p : Position) :
    (s.hoverText text p).1.isSome = (nodeAt? text p).isSome := by
  unfold hoverText
  cases nodeAt? text p <;> rfl

theorem exists_of_hoverText {s : Server} {h : Hover} (hhover : (s.hoverText text p).1 = some h) :
    ∃ n kind, nodeAt? text p = some (n, kind) ∧ h.Describes text n kind := by
  unfold hoverText at hhover
  split at hhover
  · cases hhover
  · next n kind hnode =>
    cases hhover
    exact ⟨n, kind, hnode, ⟨_, rfl⟩, rfl⟩

/-- There is something to show where the root of a tree with a kind holds the offset. -/
theorem nodeAt?_isSome_iff :
    (nodeAt? text p).isSome = true ↔
      ∃ e k, parse text = .ok e ∧ (Tree.ofExpr e).typing.result = .ok k ∧
        (Tree.ofExpr e).RootContains (text.offsetAt p) := by
  constructor
  · intro hsome
    obtain ⟨⟨n, kind⟩, hnode⟩ := Option.isSome_iff_exists.mp hsome
    obtain ⟨e, k, id, hparse, htype, hfound, -, -⟩ := nodeAt?_eq_some_iff.mp hnode
    refine ⟨e, k, hparse, htype, (Tree.innermost?_isSome_iff_root hparse).mp ?_⟩
    rw [hfound]
    rfl
  · rintro ⟨e, k, hparse, htype, hroot⟩
    obtain ⟨id, hfound⟩ :=
      Option.isSome_iff_exists.mp ((Tree.innermost?_isSome_iff_root hparse).mpr hroot)
    obtain ⟨n, hn, -⟩ := Tree.shortest_of_innermost? hfound
    rw [nodeAt?_eq_some_iff.mpr ⟨e, k, id, hparse, htype, hfound, hn.1, rfl⟩]
    rfl

end Server

/-- A hover describes the innermost expression.  In the tree of a parsed text something is
found just if the root holds the offset, and it is the one innermost node.  A text that
has a kind is described where its root holds the offset of the position, by the node found
there and the kind of the expression of this node. -/
theorem hover_innermost (text : Bytes) :
    (∀ e, parse text = .ok e → ∀ offset,
      ((Tree.ofExpr e).innermost? offset = none ↔ ¬(Tree.ofExpr e).RootContains offset) ∧
        ∀ id, (Tree.ofExpr e).innermost? offset = some id ↔
          (Tree.ofExpr e).Innermost offset id) ∧
    ∀ (s : Server) (p : Position),
      ((s.hoverText text p).1.isSome = true ↔
        ∃ e k, parse text = .ok e ∧ (Tree.ofExpr e).typing.result = .ok k ∧
          (Tree.ofExpr e).RootContains (text.offsetAt p)) ∧
      ∀ h, (s.hoverText text p).1 = some h →
        ∃ e id n x kind, parse text = .ok e ∧
          (Tree.ofExpr e).Innermost (text.offsetAt p) id ∧ (Tree.ofExpr e).nodes[id]? = some n ∧
          Tree.exprAt? (Tree.ofExpr e).nodes (Tree.ofExpr e).nodes.size id = some x ∧
          x.typeOf = .ok kind ∧ h.Describes text n kind := by
  refine ⟨fun e hparse offset => ⟨?_, fun id => Tree.innermost?_eq_some_iff hparse⟩,
    fun s p => ⟨?_, fun h hhover => ?_⟩⟩
  · rw [← Tree.innermost?_isSome_iff_root hparse, Option.not_isSome_iff_eq_none]
  · rw [Server.hoverText_isSome, Server.nodeAt?_isSome_iff]
  · obtain ⟨n, kind, hnode, hdescribes⟩ := Server.exists_of_hoverText hhover
    obtain ⟨e, k, id, hparse, htype, hfound, hn, rfl⟩ := Server.nodeAt?_eq_some_iff.mp hnode
    obtain ⟨x, hx, hkind⟩ := Tree.exists_kindOf htype (Array.getElem?_eq_some_iff.mp hn).1
    exact ⟨e, id, n, x, _, hparse, (Tree.innermost?_eq_some_iff hparse).mp hfound, hn, hx, hkind,
      hdescribes⟩

/-- In `-(1+2)*3<4` the plus sign belongs to the sum inside the parentheses, which is an
integer, and the parenthesis before it only to the negation and what is around this. -/
theorem hover_innermost_sum :
    let text := utf8 "-(1+2)*3<4"
    let sum : Node := ⟨.binary .add, some 0, some 1, .untagged, ⟨2, 5⟩, ⟨3, 4⟩⟩
    ∃ e h, parse text = .ok e ∧ (Tree.ofExpr e).typing.result = .ok .bool ∧
      (Tree.ofExpr e).Innermost 3 2 ∧ (Tree.ofExpr e).Innermost 1 3 ∧
      ((Server.start {}).hoverText text ⟨0, 3⟩).1 = some h ∧ h.Describes text sum .int := by
  intro text sum
  let product : Expr := .joined .mul ⟨6, 7⟩ (.applied .negate ⟨0, 1⟩
    (.joined .add ⟨3, 4⟩ (.ofInt 1 ⟨2, 3⟩) (.ofInt 2 ⟨4, 5⟩))) (.ofInt 3 ⟨7, 8⟩)
  let e : Expr := .joined .less ⟨8, 9⟩ product (.ofInt 4 ⟨9, 10⟩)
  have hparse : parse text = .ok e := by decide +kernel
  have htype : (Tree.ofExpr e).typing.result = .ok .bool := by decide +kernel
  have hfound : (Tree.ofExpr e).innermost? 3 = some 2 := by decide +kernel
  have hoffset : text.offsetAt ⟨0, 3⟩ = 3 := by decide +kernel
  obtain ⟨htree, hhover⟩ := hover_innermost text
  obtain ⟨hsome, hdescribes⟩ := hhover (Server.start {}) ⟨0, 3⟩
  have hroot : (Tree.ofExpr e).RootContains 3 := ⟨7, _, rfl, rfl, by decide +kernel⟩
  obtain ⟨h, hh⟩ := Option.isSome_iff_exists.mp
    (hsome.mpr ⟨e, .bool, hparse, htype, by rw [hoffset]; exact hroot⟩)
  obtain ⟨e', id, n, x, kind, hparse', hid, hn, hx, hkind, hshown⟩ := hdescribes h hh
  obtain rfl : e = e' := Except.ok.inj (hparse.symm.trans hparse')
  rw [hoffset, ← (htree e hparse _).2] at hid
  obtain rfl : 2 = id := Option.some.inj (hfound.symm.trans hid)
  obtain rfl : sum = n := Option.some.inj hn
  cases hx
  cases hkind
  exact ⟨e, h, hparse, htype, ((htree e hparse 3).2 2).mp hfound,
    ((htree e hparse 1).2 3).mp (by decide +kernel), hh, hshown⟩

end Abacus
