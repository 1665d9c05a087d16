import Abacus.Proofs.Machine.Encoding
import Abacus.Proofs.Typing.Soundness

/-!
# Code determines the expression

A compiled expression can be read back from its code and constants, all but the
places where its parts stood in the source.  `Chunk.decompile?` does it with a
stack of expressions in the place of the machine's stack of values.  So two
expressions have the same code and constants just if they differ in their places
only, and the same holds of the text that a fingerprint is made of.
-/

namespace Abacus

/-! ## Expressions without places -/

/-- The span that stands for no place. -/
def Span.nowhere : Span := ⟨0, 0⟩

/-- The expression without the places of its parts. -/
def Expr.unplaced : Expr → Expr
  | .leaf k v _ _ => .leaf k v .nowhere .nowhere
  | .unary op _ _ e => .unary op .nowhere .nowhere e.unplaced
  | .binary op _ _ l r => .binary op .nowhere .nowhere l.unplaced r.unplaced

/-- The node without its places: its kind, its links and its value. -/
def Node.unplaced (n : Node) : Node :=
  { n with span := .nowhere, mark := .nowhere }

/-- The tree without the places of its nodes. -/
def Tree.unplaced (t : Tree) : Tree :=
  { t with nodes := t.nodes.map Node.unplaced }

namespace Expr

@[simp] theorem size_unplaced (e : Expr) : e.unplaced.size = e.size := by
  induction e with
  | leaf => rfl
  | unary op span mark e ih => simp [unplaced, size, ih]
  | binary op span mark l r ihl ihr => simp [unplaced, size, ihl, ihr]

theorem nodes_unplaced (start : Nat) (e : Expr) :
    e.unplaced.nodes start = (e.nodes start).map Node.unplaced := by
  induction e generalizing start with
  | leaf => rfl
  | unary op span mark e ih => simp [unplaced, nodes, Node.unplaced, ih]
  | binary op span mark l r ihl ihr => simp [unplaced, nodes, Node.unplaced, ihl, ihr]

@[simp] theorem literals_unplaced (e : Expr) : e.unplaced.literals = e.literals := by
  induction e with
  | leaf k => cases k <;> rfl
  | unary op span mark e ih => simp [unplaced, literals, ih]
  | binary op span mark l r ihl ihr => simp [unplaced, literals, ihl, ihr]

@[simp] theorem code_unplaced (first : Nat) (e : Expr) : e.unplaced.code first = e.code first := by
  induction e generalizing first with
  | leaf k => cases k <;> rfl
  | unary op span mark e ih => simp [unplaced, code, ih]
  | binary op span mark l r ihl ihr => simp [unplaced, code, ihl, ihr]

end Expr

namespace Tree

theorem unplaced_ofExpr (e : Expr) : (ofExpr e).unplaced = ofExpr e.unplaced := by
  have hnodes : (ofExpr e).nodes.map Node.unplaced = (ofExpr e.unplaced).nodes := by
    apply Array.toList_inj.mp
    rw [Array.toList_map, toList_ofExpr, toList_ofExpr, Expr.nodes_unplaced]
  have hroot : (ofExpr e).root = (ofExpr e.unplaced).root := by
    rw [root_ofExpr, root_ofExpr, Expr.size_unplaced]
  rw [unplaced, hnodes, hroot]

theorem ofExpr_inj {e e' : Expr} : ofExpr e = ofExpr e' ↔ e = e' := by
  refine ⟨fun h => ?_, fun h => by rw [h]⟩
  have hread := congrArg expr? h
  rw [expr?_ofExpr, expr?_ofExpr] at hread
  exact Option.some.inj hread

/-- Trees agree up to places just if their expressions do. -/
theorem unplaced_ofExpr_eq_iff {e e' : Expr} :
    (ofExpr e).unplaced = (ofExpr e').unplaced ↔ e.unplaced = e'.unplaced := by
  rw [unplaced_ofExpr, unplaced_ofExpr, ofExpr_inj]

end Tree

/-! ## Reading code back -/

/-- The literal that a constant stands for.  Truth values have instructions of
their own and are no constants. -/
def Value.literal? : Value → Option Expr
  | .int i => some (.ofInt i .nowhere)
  | .float x => some (.ofFloat x .nowhere)
  | .bool _ | .untagged => none

/-- The expression of the code, given the expressions of the values on the stack. -/
def decompileFrom (pool : List Value) : List Expr → Bytes → Option Expr
  | _, [] => none
  | es, b :: rest =>
    match Opcode.ofByte? b with
    | none => none
    | some .const =>
      match rest with
      | [] => none
      | index :: rest =>
        match pool[index.toNat]?.bind Value.literal? with
        | none => none
        | some e => decompileFrom pool (e :: es) rest
    | some (.truth v) => decompileFrom pool (.ofBool v .nowhere :: es) rest
    | some (.unary op) =>
      match es with
      | e :: es => decompileFrom pool (.unary op .nowhere .nowhere e :: es) rest
      | [] => none
    | some (.binary op) =>
      match es with
      | r :: l :: es => decompileFrom pool (.binary op .nowhere .nowhere l r :: es) rest
      | _ => none
    | some .ret => es.head?

/-- The expression that a chunk computes, without places. -/
def Chunk.decompile? (c : Chunk) : Option Expr :=
  decompileFrom c.constants [] c.code

section Instructions

variable {pool : List Value} {es : List Expr} {rest : Bytes}

theorem decompileFrom_const {index : UInt8} {v : Value} {e : Expr}
    (hindex : pool[index.toNat]? = some v) (hliteral : v.literal? = some e) :
    decompileFrom pool es (Opcode.const.byte :: index :: rest) =
      decompileFrom pool (e :: es) rest := by
  rw [decompileFrom.eq_def]
  simp [hindex, hliteral]

theorem decompileFrom_truth (v : Bool) :
    decompileFrom pool es ((Opcode.truth v).byte :: rest) =
      decompileFrom pool (.ofBool v .nowhere :: es) rest := by
  rw [decompileFrom.eq_def]
  simp

theorem decompileFrom_unary (op : UnaryOp) (e : Expr) :
    decompileFrom pool (e :: es) ((Opcode.unary op).byte :: rest) =
      decompileFrom pool (.unary op .nowhere .nowhere e :: es) rest := by
  rw [decompileFrom.eq_def]
  simp

theorem decompileFrom_binary (op : BinaryOp) (l r : Expr) :
    decompileFrom pool (r :: l :: es) ((Opcode.binary op).byte :: rest) =
      decompileFrom pool (.binary op .nowhere .nowhere l r :: es) rest := by
  rw [decompileFrom.eq_def]
  simp

theorem decompileFrom_ret : decompileFrom pool es (Opcode.ret.byte :: rest) = es.head? := by
  rw [decompileFrom.eq_def]
  simp

end Instructions

namespace Expr

/-- A literal that is a constant is read back from it. -/
theorem literal?_of_properLeaves {k : LeafKind} {v : Value} {span mark : Span} (hk : k ≠ .bool)
    (hleaves : (leaf k v span mark).ProperLeaves) :
    v.literal? = some (leaf k v span mark).unplaced := by
  cases k with
  | int => obtain ⟨i, rfl⟩ := hleaves; rfl
  | float => obtain ⟨x, rfl⟩ := hleaves; rfl
  | bool => contradiction
  | unknown code => exact hleaves.elim

/-- Reading the code of an expression puts the expression on the stack, whatever
is there and whatever follows. -/
theorem decompileFrom_code {pool : List Value} {first : Nat} {e : Expr}
    (hleaves : e.ProperLeaves) (hpool : Supplied pool first e)
    (hindexed : pool.length ≤ maxConstants) (es : List Expr) (rest : Bytes) :
    decompileFrom pool es (e.code first ++ rest) = decompileFrom pool (e.unplaced :: es) rest := by
  induction e generalizing first es rest with
  | leaf k v span mark =>
    by_cases hk : k = .bool
    · subst hk
      obtain ⟨b, rfl⟩ := hleaves
      have htruth : Value.truth (.bool b) = b := by cases b <;> rfl
      rw [code, htruth, List.singleton_append, decompileFrom_truth]
      rfl
    · have hindex := hpool.constant (literals_constant hk v span mark) hindexed
      rw [code_constant hk, List.cons_append, List.singleton_append,
        decompileFrom_const hindex (literal?_of_properLeaves hk hleaves)]
  | unary op span mark e ih =>
    rw [code, List.append_assoc, ih hleaves hpool, List.singleton_append, decompileFrom_unary]
    rfl
  | binary op span mark l r ihl ihr =>
    rw [code, List.append_assoc, List.append_assoc, ihl hleaves.1 hpool.left,
      ihr hleaves.2 hpool.right, List.singleton_append, decompileFrom_binary]
    rfl

/-- An expression is read back from the chunk that was generated for it. -/
theorem Generated.decompile? {e : Expr} {c : Chunk} (hleaves : e.ProperLeaves)
    (hc : e.Generated c) : c.decompile? = some e.unplaced := by
  have hpool : Supplied e.literals 0 e := ⟨[], [], rfl, by simp⟩
  rw [Chunk.decompile?, hc.constants, hc.code, decompileFrom_code hleaves hpool hc.indexed,
    decompileFrom_ret]
  rfl

/-- A generated chunk has code, if only a return. -/
theorem Generated.code?_eq_some {e : Expr} {c : Chunk} (hc : e.Generated c) :
    c.code? = some c.code := by
  have hne : c.code ≠ [] := by simp [hc.code]
  unfold Chunk.code at hne ⊢
  cases hcode : c.code? with
  | none => simp [hcode] at hne
  | some s => rfl

/-- Generated chunks have the same code and constants just if their expressions
agree up to places. -/
theorem Generated.eq_iff {e e' : Expr} {c c' : Chunk} (hleaves : e.ProperLeaves)
    (hleaves' : e'.ProperLeaves) (hc : e.Generated c) (hc' : e'.Generated c') :
    c.code = c'.code ∧ c.constants = c'.constants ↔ e.unplaced = e'.unplaced := by
  constructor
  · rintro ⟨hcode, hconstants⟩
    have hread : c.decompile? = c'.decompile? := by
      rw [Chunk.decompile?, Chunk.decompile?, hcode, hconstants]
    rw [hc.decompile? hleaves, hc'.decompile? hleaves'] at hread
    exact Option.some.inj hread
  · intro h
    constructor
    · rw [hc.code, hc'.code, ← code_unplaced, ← code_unplaced 0 e', h]
    · rw [hc.constants, hc'.constants, ← literals_unplaced, ← literals_unplaced e', h]

/-- The same of the text that a fingerprint is made of. -/
theorem Generated.encoded_eq_iff_unplaced {e e' : Expr} {c c' : Chunk} (hleaves : e.ProperLeaves)
    (hleaves' : e'.ProperLeaves) (hc : e.Generated c) (hc' : e'.Generated c') :
    c.encoded = c'.encoded ↔ e.unplaced = e'.unplaced := by
  rw [← hc.eq_iff hleaves hleaves' hc']
  constructor
  · intro h
    have hpool : c.constants.length ≤ maxConstants := hc.constants ▸ hc.indexed
    have hpool' : c'.constants.length ≤ maxConstants := hc'.constants ▸ hc'.indexed
    obtain ⟨hcode, hconstants⟩ := Chunk.encoded_inj_of_indexed hpool hpool' h
    exact ⟨by rw [Chunk.code, Chunk.code, hcode], hconstants⟩
  · rintro ⟨hcode, hconstants⟩
    have hcode? : c.code? = c'.code? := by
      rw [hc.code?_eq_some, hc'.code?_eq_some, hcode]
    rw [Chunk.encoded, Chunk.encoded, hcode?, hconstants]

end Expr

/-! ## Programs -/

/-- Two programs, compiled under any limits, have the same code and constants just
if the trees of their texts agree up to places: in the kinds, the links and the
values of all nodes.  And just then they have one text to take the fingerprint
of. -/
theorem chunk_eq_iff_tree_eq {source source' : Bytes} {limits limits' : Limits} {p p' : Program}
    (hcompile : compile source limits = .ok p) (hcompile' : compile source' limits' = .ok p') :
    ∃ e e', parse source = .ok e ∧ parse source' = .ok e' ∧
      (p.chunk.code = p'.chunk.code ∧ p.chunk.constants = p'.chunk.constants ↔
        (Tree.ofExpr e).unplaced = (Tree.ofExpr e').unplaced) ∧
      (p.chunk.encoded = p'.chunk.encoded ↔
        (Tree.ofExpr e).unplaced = (Tree.ofExpr e').unplaced) := by
  obtain ⟨e, hparse, -, hgenerate⟩ := stages_of_compile hcompile
  obtain ⟨e', hparse', -, hgenerate'⟩ := stages_of_compile hcompile'
  have hleaves : e.ProperLeaves := properLeaves_of_parseTokens hparse
  have hleaves' : e'.ProperLeaves := properLeaves_of_parseTokens hparse'
  have hc := Expr.generated_of_generate hgenerate
  have hc' := Expr.generated_of_generate hgenerate'
  refine ⟨e, e', hparse, hparse', ?_⟩
  rw [Tree.unplaced_ofExpr_eq_iff]
  exact ⟨hc.eq_iff hleaves hleaves' hc', hc.encoded_eq_iff_unplaced hleaves hleaves' hc'⟩

/-- A comment, blanks, needless parentheses and other spellings of the numbers leave
the code as it is; parentheses that change the order do not. -/
theorem chunk_eq_iff_tree_eq_spelling :
    ∃ p p' p'', compile (utf8 "1.50-2.0*3.0") {} = .ok p ∧
      compile (utf8 "// no change\n (01.5 - ((2.00)*3.0))") { maxConstants := 3 } = .ok p' ∧
      compile (utf8 "(1.50-2.0)*3.0") {} = .ok p'' ∧
      p.chunk.encoded = p'.chunk.encoded ∧ p.chunk.encoded ≠ p''.chunk.encoded := by
  obtain ⟨p, hp⟩ := exists_eq_ok
    (by decide +kernel : (compile (utf8 "1.50-2.0*3.0") {}).isOk = true)
  obtain ⟨p', hp'⟩ := exists_eq_ok
    (by decide +kernel :
      (compile (utf8 "// no change\n (01.5 - ((2.00)*3.0))") { maxConstants := 3 }).isOk = true)
  obtain ⟨p'', hp''⟩ := exists_eq_ok
    (by decide +kernel : (compile (utf8 "(1.50-2.0)*3.0") {}).isOk = true)
  let tree (source : String) : Option Tree :=
    (parse (utf8 source)).toOption.map fun e => (Tree.ofExpr e).unplaced
  have hsame : tree "1.50-2.0*3.0" = tree "// no change\n (01.5 - ((2.00)*3.0))" := by
    decide +kernel
  have hother : tree "1.50-2.0*3.0" ≠ tree "(1.50-2.0)*3.0" := by decide +kernel
  refine ⟨p, p', p'', hp, hp', hp'', ?_, ?_⟩
  · obtain ⟨e, e', he, he', -, hiff⟩ := chunk_eq_iff_tree_eq hp hp'
    simp only [tree, he, he', toOption_ok, Option.map_some, Option.some.injEq] at hsame
    exact hiff.mpr hsame
  · obtain ⟨e, e'', he, he'', -, hiff⟩ := chunk_eq_iff_tree_eq hp hp''
    simp only [tree, he, he'', toOption_ok, Option.map_some, ne_eq, Option.some.injEq] at hother
    exact fun h => hother (hiff.mp h)

end Abacus
