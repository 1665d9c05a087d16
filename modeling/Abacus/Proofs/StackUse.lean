import Abacus.Emit.File
import Abacus.Proofs.Emit.FaultAgreement
import Abacus.Proofs.Typing.Stopping

/-!
# How much stack a program uses

The instruction table tells how many values the stack holds behind each instruction of
a code.  `levelsFrom` lists these heights, whatever the values are and however much room
there is, and `Chunk.firstHolding?` finds the first instruction behind which there are a
given number of values.

For the code of an expression the heights follow its tree.  `Expr.overflow?` is the way
to the leaf that first finds a stack of the given capacity full:

* there is one just if the expression needs more than there is
  (`overflow?_eq_none_iff`), and its instruction is the first one behind which the
  capacity would be exceeded (`find?_levels`);
* the evaluation ends there, or before it at a division by zero (`evalOn_overflow`);
* the walk that finds the function body ends there, without exception, because it does
  not see divisions by zero (`ofCode_overflow`), and otherwise goes on behind the
  expression with one more local, of the kind of the expression (`ofCode_room`).

`stackUse_of_compile` puts this together for compiled programs.
-/

namespace Abacus

/-! ## The heights of the stack -/

/-- An instruction, by its offset, and how many values there are behind it. -/
structure Level where
  offset : Nat
  height : Nat
  deriving DecidableEq

/-- The levels of a code that starts at `offset` with `height` values, after `skip`
bytes that belong to the instruction before. -/
def levelsFrom : Nat → Nat → Nat → Bytes → List Level
  | _, _, _, [] => []
  | offset, skip + 1, height, _ :: rest => levelsFrom (offset + 1) skip height rest
  | offset, 0, height, b :: rest =>
    match Opcode.ofByte? b with
    | none => []
    | some op =>
      let after := height - op.pops + op.pushes
      ⟨offset, after⟩ :: levelsFrom (offset + 1) op.operandLength after rest

/-- The offset of the first instruction behind which the stack holds `count` values, if
it has room for them. -/
def Chunk.firstHolding? (c : Chunk) (count : Nat) : Option Nat :=
  ((levelsFrom 0 0 0 c.code).find? fun l => l.height = count).map Level.offset

namespace Expr

/-- The levels of the code of an expression. -/
def levels : Nat → Nat → Expr → List Level
  | offset, height, .leaf .. => [⟨offset, height + 1⟩]
  | offset, height, .unary _ _ _ e =>
    e.levels offset height ++ [⟨offset + e.codeSize, height + 1⟩]
  | offset, height, .binary _ _ _ l r =>
    l.levels offset height ++ r.levels (offset + l.codeSize) (height + 1) ++
      [⟨offset + l.codeSize + r.codeSize, height + 1⟩]

theorem levelsFrom_op {op : Opcode} (hconst : op ≠ .const) (offset height : Nat) (rest : Bytes) :
    levelsFrom offset 0 height (op.byte :: rest) =
      ⟨offset, height - op.pops + op.pushes⟩ ::
        levelsFrom (offset + 1) 0 (height - op.pops + op.pushes) rest := by
  have hlength : op.operandLength = 0 := by cases op <;> first | rfl | contradiction
  rw [levelsFrom, Opcode.ofByte?_byte]
  simp only [hlength]

theorem levelsFrom_const (offset height : Nat) (index : UInt8) (rest : Bytes) :
    levelsFrom offset 0 height (Opcode.const.byte :: index :: rest) =
      ⟨offset, height + 1⟩ :: levelsFrom (offset + 2) 0 (height + 1) rest := by
  rw [levelsFrom, Opcode.ofByte?_byte]
  rfl

/-- Behind the code of an expression there is one value more than before it. -/
theorem levelsFrom_code (e : Expr) (first offset height : Nat) (rest : Bytes) :
    levelsFrom offset 0 height (e.code first ++ rest) =
      e.levels offset height ++ levelsFrom (offset + e.codeSize) 0 (height + 1) rest := by
  induction e generalizing first offset height rest with
  | leaf k v span mark =>
    by_cases hk : k = .bool
    · subst hk
      exact levelsFrom_op (by simp) offset height rest
    · rw [code_constant hk, codeSize_constant hk]
      exact levelsFrom_const offset height _ rest
  | unary op span mark e ih =>
    rw [code, List.append_assoc, ih, List.singleton_append, levelsFrom_op (by simp), levels,
      codeSize]
    simp [Opcode.pops, Opcode.pushes, Nat.add_assoc]
  | binary op span mark l r ihl ihr =>
    rw [code, List.append_assoc, List.append_assoc, ihl, ihr, List.singleton_append,
      levelsFrom_op (by simp), levels, codeSize]
    simp [Opcode.pops, Opcode.pushes, Nat.add_assoc]

/-! ## The leaf that finds the stack full -/

/-- The way to the first leaf that finds a stack of the given capacity full, when the
stack holds `height` values before the expression. -/
def overflow? (capacity : Nat) : Nat → Expr → Option NodePath
  | height, .leaf .. => if capacity ≤ height then some [] else none
  | height, .unary _ _ _ e => (e.overflow? capacity height).map (.left :: ·)
  | height, .binary _ _ _ l r =>
    ((l.overflow? capacity height).map (.left :: ·)).or
      ((r.overflow? capacity (height + 1)).map (.right :: ·))

theorem need_pos (e : Expr) : 0 < e.need := by
  induction e with
  | leaf => exact Nat.one_pos
  | unary op span mark e ih => exact ih
  | binary op span mark l r ihl ihr =>
    simp only [need]
    omega

/-- No leaf finds the stack full just if there is room for what the expression needs. -/
theorem overflow?_eq_none_iff {capacity height : Nat} {e : Expr} :
    e.overflow? capacity height = none ↔ height + e.need ≤ capacity := by
  induction e generalizing height with
  | leaf k v span mark =>
    simp only [overflow?, need, ite_eq_right_iff]
    constructor
    · intro h
      by_contra hfull
      exact absurd (h (by omega)) (by simp)
    · intro h hfull
      omega
  | unary op span mark e ih => simp only [overflow?, Option.map_eq_none_iff, ih, need]
  | binary op span mark l r ihl ihr =>
    simp only [overflow?, Option.or_eq_none_iff, Option.map_eq_none_iff, ihl, ihr, need]
    omega

theorem exists_overflow {capacity height : Nat} {e : Expr} (h : capacity < height + e.need) :
    ∃ path, e.overflow? capacity height = some path := by
  cases hover : e.overflow? capacity height with
  | some path => exact ⟨path, rfl⟩
  | none =>
    have hroom := overflow?_eq_none_iff.mp hover
    omega

/-- The instruction of that leaf is the first one behind which there would be one value
too many. -/
theorem find?_levels {capacity height : Nat} {e : Expr} (hheight : height ≤ capacity)
    (offset : Nat) :
    ((e.levels offset height).find? fun l => l.height = capacity + 1) =
      (e.overflow? capacity height).map fun path =>
        ⟨offset + e.offsetOf path, capacity + 1⟩ := by
  induction e generalizing height offset with
  | leaf k v span mark =>
    by_cases hfull : capacity ≤ height
    · have hsame : height = capacity := by omega
      simp [levels, overflow?, offsetOf, hsame]
    · have hother : height ≠ capacity := by omega
      simp [levels, overflow?, hfull, hother]
  | unary op span mark e ih =>
    rw [levels, List.find?_append, ih hheight, overflow?]
    cases hover : e.overflow? capacity height with
    | some path => simp [offsetOf]
    | none =>
      have hneed := overflow?_eq_none_iff.mp hover
      have hpos := e.need_pos
      have hother : height ≠ capacity := by omega
      simp [hother]
  | binary op span mark l r ihl ihr =>
    rw [levels, List.find?_append, List.find?_append, ihl hheight, overflow?]
    cases hover : l.overflow? capacity height with
    | some path => simp [offsetOf]
    | none =>
      have hneed := overflow?_eq_none_iff.mp hover
      have hpos := l.need_pos
      rw [ihr (by omega : height + 1 ≤ capacity)]
      cases hover' : r.overflow? capacity (height + 1) with
      | some path => simp [offsetOf, Nat.add_assoc]
      | none =>
        have hother : height ≠ capacity := by omega
        simp [hother]

/-- A typed expression that finds the stack full ends there, or before it at a division
by zero. -/
theorem evalOn_overflow {capacity height : Nat} {e : Expr} {k : Kind} {path : NodePath}
    (hkind : e.typeOf = .ok k) (hover : e.overflow? capacity height = some path) :
    ∃ n, e.node? path = some n ∧
      e.EndsBy (e.evalOn capacity height) (fun cause => cause = .stackOverflow capacity) path n := by
  induction e generalizing height k path with
  | leaf kind v span mark =>
    simp only [overflow?] at hover
    split at hover
    · next hfull =>
      cases hover
      exact ⟨_, rfl, ⟨[], .leaf kind v span mark, .stackOverflow capacity⟩,
        by rw [evalOn, if_pos hfull], .inl ⟨rfl, rfl, rfl⟩⟩
    · cases hover
  | unary op span mark e ih =>
    rw [typeOf, bind_eq_ok_iff] at hkind
    obtain ⟨j, hj, -⟩ := hkind
    obtain ⟨path, hpath, rfl⟩ := Option.map_eq_some_iff.mp hover
    obtain ⟨n, hnode, hends⟩ := ih hj hpath
    exact ⟨n, hnode, hends.above 0 (fun g hg => by simp [evalOn, hg])
      (fun _ => (Nat.zero_add _).symm)⟩
  | binary op span mark l r ihl ihr =>
    rw [typeOf, bind_eq_ok_iff] at hkind
    obtain ⟨i, hi, hkind⟩ := hkind
    rw [bind_eq_ok_iff] at hkind
    obtain ⟨j, hj, -⟩ := hkind
    rcases Option.or_eq_some_iff.mp hover with h | ⟨hnone, h⟩
    · obtain ⟨path, hpath, rfl⟩ := Option.map_eq_some_iff.mp h
      obtain ⟨n, hnode, hends⟩ := ihl hi hpath
      exact ⟨n, hnode, hends.above 0 (fun g hg => by simp [evalOn, hg])
        (fun _ => (Nat.zero_add _).symm)⟩
    · obtain ⟨path, hpath, rfl⟩ := Option.map_eq_some_iff.mp h
      obtain ⟨n, hnode, hends⟩ := ihr hj hpath
      refine ⟨n, hnode, ?_⟩
      -- The left operand has room, so nothing but a division by zero can end it.
      have hleft : l.evalOn capacity height = l.eval :=
        evalOn_eq_eval (overflow?_eq_none_iff.mp (Option.map_eq_none_iff.mp hnone))
      cases heval : l.eval with
      | error g =>
        apply endsBy_of_left hi heval (by simp [evalOn, hleft, heval])
        show l.codeSize ≤ l.codeSize + r.offsetOf path
        omega
      | ok v =>
        exact hends.above l.codeSize (fun g hg => by simp [evalOn, hleft, heval, hg])
          (fun _ => rfl)

end Expr

/-! ## The walk over the kinds -/

namespace Body

theorem before_before (first second : List Statement) (walk : Except RuntimeFault Body) :
    before first (before second walk) = before (first ++ second) walk := by
  cases walk with
  | error f => rfl
  | ok body => simp [before]

section Steps

variable {pool : List Value} {depth : Int} {offset next : Nat} {slots : List Slot} {rest : Bytes}

theorem ofCode_const {index : UInt8} {v : Value} (hindex : pool[index.toNat]? = some v) :
    ofCode pool depth offset next slots (Opcode.const.byte :: index :: rest) =
      if isFull depth slots then .error ⟨Opcode.const.byte, offset, .stackOverflow depth.toNat⟩
      else
        before [.declare next (.constant v)]
          (ofCode pool depth (offset + 2) (next + 1) (⟨next, v.kind⟩ :: slots) rest) := by
  rw [ofCode.eq_def]
  simp only [Opcode.ofByte?_byte, hindex]

theorem ofCode_truth (t : Bool) :
    ofCode pool depth offset next slots ((Opcode.truth t).byte :: rest) =
      if isFull depth slots then
        .error ⟨(Opcode.truth t).byte, offset, .stackOverflow depth.toNat⟩
      else
        before [.declare next (.truth t)]
          (ofCode pool depth (offset + 1) (next + 1) (⟨next, .bool⟩ :: slots) rest) := by
  rw [ofCode.eq_def]
  simp only [Opcode.ofByte?_byte]

theorem ofCode_unary {op : UnaryOp} {a : Slot} (hfit : op.operands.accepts a.kind = true)
    (hroom : isFull depth slots = false) :
    ofCode pool depth offset next (a :: slots) ((Opcode.unary op).byte :: rest) =
      before [.declare next (.unary op a.index)]
        (ofCode pool depth (offset + 1) (next + 1) (⟨next, op.resultKind a.kind⟩ :: slots)
          rest) := by
  rw [ofCode.eq_def]
  simp [hfit, hroom]

theorem ofCode_binary {op : BinaryOp} {l r : Slot} (hfit : operandsFit op l.kind r.kind = true)
    (hroom : isFull depth slots = false) :
    ofCode pool depth offset next (r :: l :: slots) ((Opcode.binary op).byte :: rest) =
      before (guard op l.kind r.index ++ [.declare next (.binary op l.index r.index)])
        (ofCode pool depth (offset + 1) (next + 1) (⟨next, op.resultKind l.kind⟩ :: slots)
          rest) := by
  rw [ofCode.eq_def]
  simp [hfit, hroom, before_before]

end Steps

end Body

namespace Expr

variable {pool : List Value} {capacity first : Nat} {e : Expr} {k : Kind}

/-- A leaf finds the stack full, or declares the next local. -/
theorem ofCode_leaf {kind : LeafKind} {v : Value} {span mark : Span}
    (hcapacity : 0 < capacity) (hleaves : (Expr.leaf kind v span mark).ProperLeaves)
    (hpool : Supplied pool first (.leaf kind v span mark))
    (hindexed : pool.length ≤ maxConstants) (offset next : Nat) (slots : List Slot)
    (rest : Bytes) :
    ∃ rhs, Body.ofCode pool capacity offset next slots
        ((Expr.leaf kind v span mark).code first ++ rest) =
      if capacity ≤ slots.length then
        .error ⟨(Expr.leaf kind v span mark).opcode.byte, offset, .stackOverflow capacity⟩
      else
        Body.before [.declare next rhs]
          (Body.ofCode pool capacity (offset + (Expr.leaf kind v span mark).codeSize) (next + 1)
            (⟨next, v.kind⟩ :: slots) rest) := by
  have hfull : Body.isFull capacity slots = decide (capacity ≤ slots.length) := by
    simp [Body.isFull, hcapacity]
  by_cases hk : kind = .bool
  · subst hk
    obtain ⟨b, rfl⟩ := hleaves
    refine ⟨.truth (Value.truth (.bool b)), ?_⟩
    rw [code, List.singleton_append, Body.ofCode_truth, hfull]
    simp only [decide_eq_true_eq, Int.toNat_natCast]
    rfl
  · have hindex := hpool.constant (literals_constant hk v span mark) hindexed
    refine ⟨.constant v, ?_⟩
    rw [code_constant hk, List.cons_append, List.singleton_append, Body.ofCode_const hindex,
      hfull, codeSize_constant hk, opcode_constant hk]
    simp only [decide_eq_true_eq, Int.toNat_natCast]

/-- With room for what the expression needs, the walk goes on behind its code.  One
local, of the kind of the expression, is left of those that it declares. -/
theorem ofCode_room (hcapacity : 0 < capacity) (hkind : e.typeOf = .ok k)
    (hleaves : e.ProperLeaves) (hpool : Supplied pool first e)
    (hindexed : pool.length ≤ maxConstants) (offset next : Nat) (slots : List Slot)
    (rest : Bytes) (hroom : slots.length + e.need ≤ capacity) :
    ∃ statements index next', Body.ofCode pool capacity offset next slots (e.code first ++ rest) =
      Body.before statements
        (Body.ofCode pool capacity (offset + e.codeSize) next' (⟨index, k⟩ :: slots) rest) := by
  have hempty : Body.isFull capacity slots = false := by
    have hpos := e.need_pos
    exact isFull_eq_false fun _ => by simp only [Int.toNat_natCast]; omega
  induction e generalizing first k offset next slots rest with
  | leaf kind v span mark =>
    obtain rfl : v.kind = k := by simpa [typeOf] using hkind
    obtain ⟨rhs, hleaf⟩ := ofCode_leaf hcapacity hleaves hpool hindexed offset next slots rest
    rw [if_neg (by simp only [need] at hroom; omega)] at hleaf
    exact ⟨_, _, _, hleaf⟩
  | unary op span mark e ih =>
    rw [typeOf, bind_eq_ok_iff] at hkind
    obtain ⟨j, hj, hkind⟩ := hkind
    obtain ⟨hfit, rfl⟩ := Typing.unaryKind_eq_ok_iff.mp hkind
    obtain ⟨statements, index, next', hoperand⟩ := ih hj hleaves hpool offset next slots
      ((Opcode.unary op).byte :: rest) hroom hempty
    rw [code, List.append_assoc, List.singleton_append, hoperand, Body.ofCode_unary hfit hempty,
      Body.before_before]
    exact ⟨_, _, _, rfl⟩
  | binary op span mark l r ihl ihr =>
    rw [typeOf, bind_eq_ok_iff] at hkind
    obtain ⟨j, hj, hkind⟩ := hkind
    rw [bind_eq_ok_iff] at hkind
    obtain ⟨i, hi, hkind⟩ := hkind
    obtain ⟨rfl, hfit, rfl⟩ := Typing.binaryKind_eq_ok_iff.mp hkind
    simp only [need] at hroom
    have hpos := r.need_pos
    obtain ⟨first', index, next', hleft⟩ := ihl hj hleaves.1 hpool.left offset next slots
      (r.code (first + l.literals.length) ++ (Opcode.binary op).byte :: rest) (by omega) hempty
    obtain ⟨second, index', next'', hright⟩ := ihr hi hleaves.2 hpool.right (offset + l.codeSize)
      next' (⟨index, j⟩ :: slots) ((Opcode.binary op).byte :: rest)
      (by simp only [List.length_cons]; omega)
      (isFull_eq_false fun _ => by simp only [List.length_cons, Int.toNat_natCast]; omega)
    have hboth : Body.operandsFit op j j = true := by simp [Body.operandsFit, hfit]
    rw [code, List.append_assoc, List.append_assoc, List.singleton_append, hleft, hright,
      Body.ofCode_binary hboth hempty, Body.before_before, Body.before_before, codeSize,
      Nat.add_assoc, Nat.add_assoc]
    exact ⟨_, _, _, rfl⟩

/-- Without room the walk ends at the leaf that finds the stack full. -/
theorem ofCode_overflow {n : Expr} {path : NodePath} (hcapacity : 0 < capacity)
    (hkind : e.typeOf = .ok k) (hleaves : e.ProperLeaves) (hpool : Supplied pool first e)
    (hindexed : pool.length ≤ maxConstants) (offset next : Nat) (slots : List Slot)
    (rest : Bytes) (hover : e.overflow? capacity slots.length = some path)
    (hnode : e.node? path = some n) :
    Body.ofCode pool capacity offset next slots (e.code first ++ rest) =
      .error ⟨n.opcode.byte, offset + e.offsetOf path, .stackOverflow capacity⟩ := by
  induction e generalizing first k offset next slots rest path with
  | leaf kind v span mark =>
    obtain ⟨rhs, hleaf⟩ := ofCode_leaf hcapacity hleaves hpool hindexed offset next slots rest
    rw [hleaf]
    simp only [overflow?] at hover
    split at hover
    · next hfull =>
      cases hover
      cases hnode
      rw [if_pos hfull]
      rfl
    · cases hover
  | unary op span mark e ih =>
    rw [typeOf, bind_eq_ok_iff] at hkind
    obtain ⟨j, hj, -⟩ := hkind
    obtain ⟨path, hpath, rfl⟩ := Option.map_eq_some_iff.mp hover
    rw [code, List.append_assoc, ih hj hleaves hpool offset next slots _ hpath hnode]
    rfl
  | binary op span mark l r ihl ihr =>
    rw [typeOf, bind_eq_ok_iff] at hkind
    obtain ⟨j, hj, hkind⟩ := hkind
    rw [bind_eq_ok_iff] at hkind
    obtain ⟨i, hi, -⟩ := hkind
    rw [code, List.append_assoc, List.append_assoc]
    rcases Option.or_eq_some_iff.mp hover with h | ⟨hnone, h⟩
    · obtain ⟨path, hpath, rfl⟩ := Option.map_eq_some_iff.mp h
      rw [ihl hj hleaves.1 hpool.left offset next slots _ hpath hnode]
      rfl
    · obtain ⟨path, hpath, rfl⟩ := Option.map_eq_some_iff.mp h
      have hroom := overflow?_eq_none_iff.mp (Option.map_eq_none_iff.mp hnone)
      obtain ⟨statements, index, next', hleft⟩ := ofCode_room hcapacity hj hleaves.1 hpool.left
        hindexed offset next slots (r.code (first + l.literals.length) ++
          ([(Opcode.binary op).byte] ++ rest)) hroom
      rw [hleft, ihr hi hleaves.2 hpool.right _ next' (⟨index, j⟩ :: slots) _ hpath hnode]
      show Except.error _ = Except.error _
      rw [offsetOf, Nat.add_assoc]

/-! ## Chunks -/

namespace Generated

variable {c : Chunk}

theorem supplied (hc : e.Generated c) : Supplied c.constants 0 e :=
  ⟨[], [], rfl, by simp [hc.constants]⟩

theorem length_constants (hc : e.Generated c) : c.constants.length ≤ maxConstants := by
  rw [hc.constants]
  exact hc.indexed

/-- The heights of the code tell which leaf finds the stack full. -/
theorem firstHolding?_eq (hc : e.Generated c) :
    c.firstHolding? (capacity + 1) = (e.overflow? capacity 0).map e.offsetOf := by
  rw [Chunk.firstHolding?, hc.code, levelsFrom_code, levelsFrom_op (by simp), List.find?_append,
    find?_levels (Nat.zero_le _)]
  -- The return leaves fewer values than there were, so it is never the first.
  cases e.overflow? capacity 0 <;> simp [Opcode.pops, Opcode.pushes, levelsFrom]

/-- With room there is a body, and it has the kind of the expression. -/
theorem body_room (hc : e.Generated c) (hcapacity : 0 < capacity) (hkind : e.typeOf = .ok k)
    (hleaves : e.ProperLeaves) (hroom : e.need ≤ capacity) :
    ∃ body, c.body capacity = .ok body ∧ body.kind = k := by
  obtain ⟨statements, index, next, hwalk⟩ := ofCode_room hcapacity hkind hleaves hc.supplied
    hc.length_constants 0 0 [] [Opcode.ret.byte] (by simpa using hroom)
  rw [Chunk.body, hc.code, hwalk, Body.ofCode.eq_def]
  simp only [Opcode.ofByte?_byte]
  exact ⟨_, rfl, rfl⟩

/-- Without room there is none. -/
theorem body_overflow {n : Expr} {path : NodePath} (hc : e.Generated c) (hcapacity : 0 < capacity)
    (hkind : e.typeOf = .ok k) (hleaves : e.ProperLeaves)
    (hover : e.overflow? capacity 0 = some path) (hnode : e.node? path = some n) :
    c.body capacity = .error ⟨n.opcode.byte, e.offsetOf path, .stackOverflow capacity⟩ := by
  rw [Chunk.body, hc.code, ofCode_overflow hcapacity hkind hleaves hc.supplied
    hc.length_constants 0 0 [] _ hover hnode, Nat.zero_add]

end Generated

end Expr

/-- A file is written for a body only, and has its kind. -/
theorem body_of_emitFile {c : Chunk} {options : EmitOptions} {file : EmittedFile}
    (h : c.emitFile options = .ok file) :
    ∃ body, c.body options.stackDepth = .ok body ∧ file.kind = body.kind := by
  unfold Chunk.emitFile at h
  simp only at h
  split at h
  · cases h
  · split at h
    · cases h
    · next body hbody =>
      refine ⟨body, hbody, ?_⟩
      split_ifs at h
      all_goals
        cases h
        rfl

/-! ## Programs -/

/-- What becomes of a program on a machine, by what its expression needs and what the
machine has. -/
structure StackUse (e : Expr) (p : Program) (m : Machine) : Prop where
  /-- With enough room no run finds the stack full, and there is a function body. -/
  room : e.need ≤ m.capacity →
    (∀ f depth, (m.execute p.chunk).1.result = .error f → f.cause ≠ .stackOverflow depth) ∧
      ∃ body, p.chunk.body m.capacity = .ok body ∧ body.kind = p.kind
  /-- With less room, the first instruction that would hold a value too many is a fault:
  of the walk in any case, and of the run unless it divides by zero before. -/
  overflow : m.capacity < e.need →
    ∃ b offset, p.chunk.firstHolding? (m.capacity + 1) = some offset ∧
      p.chunk.code[offset]? = some b ∧
      p.chunk.body m.capacity = .error ⟨b, offset, .stackOverflow m.capacity⟩ ∧
      ((m.execute p.chunk).1.result = .error ⟨b, offset, .stackOverflow m.capacity⟩ ∨
        ∃ f, (m.execute p.chunk).1.result = .error f ∧ f.cause = .divisionByZero ∧
          f.offset < offset)
  /-- A file is written only with enough room, and for the kind of the program. -/
  files : ∀ (options : EmitOptions) (file : EmittedFile), options.stackDepth = m.capacity →
    p.chunk.emitFile options = .ok file → e.need ≤ m.capacity ∧ file.kind = p.kind

/-- A compiled program uses just the stack that its expression needs. -/
theorem stackUse_of_compile {source : Bytes} {limits : Limits} {p : Program}
    (hcompile : compile source limits = .ok p) :
    ∃ e, parse source = .ok e ∧ ∀ m : Machine, 1 ≤ m.capacity → StackUse e p m := by
  obtain ⟨e, hparse, hkind, hgenerate⟩ := stages_of_compile hcompile
  have hleaves : e.ProperLeaves := properLeaves_of_parseTokens hparse
  have hc : e.Generated p.chunk := Expr.generated_of_generate hgenerate
  refine ⟨e, hparse, fun m hcapacity => ?_⟩
  have hrun := Expr.execute_generated hleaves hc m
  refine ⟨fun hroom => ⟨?_, hc.body_room hcapacity hkind hleaves hroom⟩, fun hless => ?_,
    fun options file hdepth hfile => ?_⟩
  · intro f depth hresult hcause
    rw [Expr.evalOn_eq_eval (by omega)] at hrun
    have hyields := Expr.eval_of_typeOf hkind
    cases heval : e.eval with
    | ok v =>
      rw [hrun, heval] at hresult
      cases hresult
    | error g =>
      rw [heval] at hyields
      rw [hrun, heval] at hresult
      cases hresult
      exact absurd (hyields.symm.trans hcause) (by simp)
  · obtain ⟨path, hover⟩ := Expr.exists_overflow (by omega : m.capacity < 0 + e.need)
    obtain ⟨n, hnode, g, heval, hg⟩ := Expr.evalOn_overflow hkind hover
    refine ⟨n.opcode.byte, e.offsetOf path, ?_, ?_,
      hc.body_overflow hcapacity hkind hleaves hover hnode, ?_⟩
    · rw [hc.firstHolding?_eq, hover]
      rfl
    · rw [hc.code]
      exact Expr.code_offsetOf hnode 0 [Opcode.ret.byte]
    · rw [heval] at hrun
      rcases hg with ⟨hcause, rfl, rfl⟩ | ⟨hcause, hbefore⟩
      · rw [← hcause]
        exact .inl hrun
      · exact .inr ⟨_, hrun, hcause, hbefore⟩
  · obtain ⟨body, hbody, hfile⟩ := body_of_emitFile hfile
    rw [hdepth] at hbody
    by_cases hroom : e.need ≤ m.capacity
    · obtain ⟨body', hbody', hkind'⟩ := hc.body_room hcapacity hkind hleaves hroom
      rw [hbody'] at hbody
      cases hbody
      exact ⟨hroom, hfile.trans hkind'⟩
    · obtain ⟨path, hover⟩ := Expr.exists_overflow (by omega : m.capacity < 0 + e.need)
      obtain ⟨n, hnode, -⟩ := Expr.evalOn_overflow hkind hover
      rw [hc.body_overflow hcapacity hkind hleaves hover hnode] at hbody
      cases hbody

/-- The right-nested sum `1+(2+(3+4))` needs four places.  With three, the constant `4`
is one value too many. -/
theorem stackUse_of_compile_nested :
    let source := utf8 "1+(2+(3+4))"
    let m : Machine := Machine.withDepth 3
    let f : RuntimeFault := ⟨0x10, 6, .stackOverflow 3⟩
    ∃ p, compile source {} = .ok p ∧ 1 ≤ m.capacity ∧
      (∃ e, parse source = .ok e ∧ e.need = 4 ∧ StackUse e p m) ∧
      p.chunk.firstHolding? 4 = some 6 ∧ p.chunk.body 3 = .error f ∧
      (m.execute p.chunk).1.result = .error f := by
  intro source m f
  let p : Program :=
    { source, kind := .int, warnings := [],
      chunk :=
        { Chunk.empty with
          code? := some [0x10, 0, 0x10, 1, 0x10, 2, 0x10, 3, 0x50, 0x50, 0x50, 0xf0]
          constants := [.int 1, .int 2, .int 3, .int 4]
          locations := [⟨8, ⟨6, 9⟩⟩, ⟨9, ⟨3, 9⟩⟩, ⟨10, ⟨0, 9⟩⟩] } }
  have hcompile : compile source {} = .ok p := by decide +kernel
  have hcapacity : 1 ≤ m.capacity := by decide
  obtain ⟨e, hparse, huse⟩ := stackUse_of_compile hcompile
  have hneed : (parse source).toOption.map Expr.need = some 4 := by decide +kernel
  rw [hparse] at hneed
  exact ⟨p, hcompile, hcapacity, ⟨e, hparse, by simpa using hneed, huse m hcapacity⟩,
    by decide +kernel, by decide +kernel, by decide +kernel⟩

end Abacus
