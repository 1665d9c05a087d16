import Mathlib.Data.List.Nodup
import Abacus.Machine.Listing
import Abacus.Proofs.Places
import Abacus.Proofs.Typing.Soundness

/-!
# The instructions of a program

`decodeFrom` cuts code into instructions by the lengths in the instruction table.  The
code of an expression falls into one instruction for each node, in the order in which
the tree keeps its nodes (`decodeFrom_code`), so a node and its instruction have the same
index:

* the instruction is the one that the node stands for (`map_op_instructions`);
* the constants are numbered from left to right (`constants_instructions`);
* an operator, and nothing else, is recorded with the span of its node
  (`mem_locations`, `map_offset_locations`).

`transcribes_of_compile` says what this comes to for a compiled program.
-/

namespace Abacus

/-- An instruction of some code, with the bytes of its operand. -/
structure Instruction where
  offset : Nat
  op : Opcode
  operand : Bytes
  deriving DecidableEq

/-- The instructions of the code from `offset` on, after `skip` bytes that belong to the
instruction before.  There are none if a byte is no instruction, or if the code ends
inside of one. -/
def decodeFrom : Nat → Nat → Bytes → Option (List Instruction)
  | _, 0, [] => some []
  | _, _ + 1, [] => none
  | offset, skip + 1, _ :: rest => decodeFrom (offset + 1) skip rest
  | offset, 0, b :: rest =>
    match Opcode.ofByte? b with
    | none => none
    | some op =>
      (decodeFrom (offset + 1) (op.length - 1) rest).map
        (⟨offset, op, rest.take (op.length - 1)⟩ :: ·)

/-- The instructions of a chunk, if it has nothing else. -/
def Chunk.decoded? (c : Chunk) : Option (List Instruction) :=
  decodeFrom 0 0 c.code

/-- Whether an instruction applies an operator. -/
def Opcode.isOperator : Opcode → Bool
  | .unary _ | .binary _ => true
  | .const | .truth _ | .ret => false

/-- The instruction that a node stands for. -/
def Node.opcode (n : Node) : Opcode :=
  match n.kind with
  | .leaf .bool => .truth n.value.truth
  | .leaf _ => .const
  | .unary op => .unary op
  | .binary op => .binary op

theorem Node.opcode_ne_ret (n : Node) : n.opcode ≠ .ret := by
  unfold Node.opcode
  split <;> simp

/-! ## Decoding -/

theorem decodeFrom_op {op : Opcode} (hconst : op ≠ .const) (offset : Nat) (rest : Bytes) :
    decodeFrom offset 0 (op.byte :: rest) =
      (decodeFrom (offset + 1) 0 rest).map (⟨offset, op, []⟩ :: ·) := by
  have hlength : op.length - 1 = 0 := by cases op <;> first | rfl | contradiction
  rw [decodeFrom, Opcode.ofByte?_byte]
  simp only [hlength, List.take_zero]

theorem decodeFrom_const (offset : Nat) (index : UInt8) (rest : Bytes) :
    decodeFrom offset 0 (Opcode.const.byte :: index :: rest) =
      (decodeFrom (offset + 2) 0 rest).map (⟨offset, .const, [index]⟩ :: ·) := by
  rw [decodeFrom, Opcode.ofByte?_byte]
  rfl

theorem skip_le_of_decodeFrom {offset skip : Nat} {code : Bytes} {xs : List Instruction}
    (h : decodeFrom offset skip code = some xs) : skip ≤ code.length := by
  induction code generalizing offset skip xs with
  | nil =>
    cases skip with
    | zero => exact Nat.le_refl _
    | succ skip => cases h
  | cons b rest ih =>
    cases skip with
    | zero => exact Nat.zero_le _
    | succ skip => exact Nat.succ_le_succ (ih h)

namespace Listing

/-- A listing shows an instruction that has its operand with its full length. -/
theorem length_instruction {b : UInt8} {op : Opcode} {rest : Bytes} (pool : List Value)
    (hop : Opcode.ofByte? b = some op) (hoperand : op.length - 1 ≤ rest.length) :
    (instruction pool (b :: rest)).2 = op.length := by
  cases op with
  | const =>
    cases rest with
    | nil => cases hoperand
    | cons index rest =>
      simp only [instruction, hop]
      cases pool[index.toNat]? <;> rfl
  | _ => simp only [instruction, hop]

/-- A listing of code that can be decoded shows the same instructions. -/
theorem map_offset_walk {offset skip : Nat} {code : Bytes} {xs : List Instruction}
    (pool : List Value) (h : decodeFrom offset skip code = some xs) :
    (walk pool offset skip code).map ListedInstruction.offset = xs.map Instruction.offset := by
  induction code generalizing offset skip xs with
  | nil =>
    cases skip with
    | zero =>
      cases h
      rfl
    | succ skip => cases h
  | cons b rest ih =>
    cases skip with
    | succ skip => exact ih h
    | zero =>
      rw [decodeFrom] at h
      split at h
      · cases h
      · next op hop =>
        obtain ⟨ys, hys, rfl⟩ := Option.map_eq_some_iff.mp h
        rw [walk]
        simp only [length_instruction pool hop (skip_le_of_decodeFrom hys), List.map_cons, ih hys]

end Listing

/-! ## The instructions of an expression -/

namespace Expr

/-- The instructions of an expression whose first constant has the index `first` and
whose code starts at `offset`. -/
def instructions : Nat → Nat → Expr → List Instruction
  | _, offset, .leaf .bool v _ _ => [⟨offset, .truth v.truth, []⟩]
  | first, offset, .leaf _ _ _ _ => [⟨offset, .const, [UInt8.ofNat first]⟩]
  | first, offset, .unary op _ _ e =>
    e.instructions first offset ++ [⟨offset + e.codeSize, .unary op, []⟩]
  | first, offset, .binary op _ _ l r =>
    l.instructions first offset ++
      r.instructions (first + l.literals.length) (offset + l.codeSize) ++
      [⟨offset + l.codeSize + r.codeSize, .binary op, []⟩]

theorem instructions_constant {k : LeafKind} (hk : k ≠ .bool) (v : Value) (span mark : Span)
    (first offset : Nat) :
    instructions first offset (.leaf k v span mark) =
      [⟨offset, .const, [UInt8.ofNat first]⟩] := by
  cases k <;> first | rfl | contradiction

/-- Decoding the code of an expression gives its instructions and goes on behind it. -/
theorem decodeFrom_code (e : Expr) (first offset : Nat) (rest : Bytes) :
    decodeFrom offset 0 (e.code first ++ rest) =
      (decodeFrom (offset + e.codeSize) 0 rest).map (e.instructions first offset ++ ·) := by
  induction e generalizing first offset rest with
  | leaf k v span mark =>
    by_cases hk : k = .bool
    · subst hk
      exact decodeFrom_op (by simp) offset rest
    · rw [code_constant hk, codeSize_constant hk, instructions_constant hk]
      exact decodeFrom_const offset _ rest
  | unary op span mark e ih =>
    rw [code, List.append_assoc, ih, List.singleton_append, decodeFrom_op (by simp), codeSize,
      Option.map_map]
    simp only [instructions, Function.comp_def, List.append_assoc, List.singleton_append,
      Nat.add_assoc]
  | binary op span mark l r ihl ihr =>
    rw [code, List.append_assoc, List.append_assoc, ihl, ihr, List.singleton_append,
      decodeFrom_op (by simp), codeSize, Option.map_map, Option.map_map]
    simp only [instructions, Function.comp_def, List.append_assoc, List.singleton_append,
      Nat.add_assoc]

/-- The instructions are those of the nodes, in the order of the nodes. -/
theorem map_op_instructions (e : Expr) (first offset start : Nat) :
    (e.instructions first offset).map Instruction.op = (e.nodes start).map Node.opcode := by
  induction e generalizing first offset start with
  | leaf k v span mark => cases k <;> rfl
  | unary op span mark e ih => simp [instructions, nodes, Node.opcode, ih first offset start]
  | binary op span mark l r ihl ihr =>
    simp [instructions, nodes, Node.opcode, ihl first offset start,
      ihr (first + l.literals.length) (offset + l.codeSize) (start + l.size)]

@[simp] theorem length_instructions (e : Expr) (first offset : Nat) :
    (e.instructions first offset).length = e.size := by
  have hlength := congrArg List.length (e.map_op_instructions first offset 0)
  simpa using hlength

/-- No instruction of an expression is a return. -/
theorem op_ne_ret {e : Expr} {first offset : Nat} {x : Instruction}
    (hx : x ∈ e.instructions first offset) : x.op ≠ .ret := by
  have hop : x.op ∈ (e.nodes 0).map Node.opcode := by
    rw [← e.map_op_instructions first offset 0]
    exact List.mem_map_of_mem hx
  obtain ⟨n, -, hn⟩ := List.mem_map.mp hop
  rw [← hn]
  exact n.opcode_ne_ret

/-- The operands of the constants count up from the first index. -/
theorem constants_instructions (e : Expr) (first offset : Nat) :
    ((e.instructions first offset).filter (·.op = .const)).map Instruction.operand =
      (List.range' first e.literals.length).map fun i => [UInt8.ofNat i] := by
  induction e generalizing first offset with
  | leaf k v span mark => cases k <;> rfl
  | unary op span mark e ih => simp [instructions, literals, ih]
  | binary op span mark l r ihl ihr =>
    simp only [instructions, literals, List.filter_append, List.map_append, ihl, ihr,
      List.length_append, ← List.range'_append_1]
    simp

/-! ## Offsets -/

theorem offset_mem_instructions {e : Expr} {first offset : Nat} {x : Instruction}
    (hx : x ∈ e.instructions first offset) :
    offset ≤ x.offset ∧ x.offset < offset + e.codeSize := by
  induction e generalizing first offset with
  | leaf k v span mark =>
    cases k <;>
    · rw [List.mem_singleton.mp hx]
      simp [codeSize]
  | unary op span mark e ih =>
    simp only [instructions, List.mem_append, List.mem_singleton] at hx
    simp only [codeSize]
    rcases hx with hx | rfl
    · have := ih hx
      omega
    · simp only
      omega
  | binary op span mark l r ihl ihr =>
    simp only [instructions, List.mem_append, List.mem_singleton] at hx
    simp only [codeSize]
    rcases hx with (hx | hx) | rfl
    · have := ihl hx
      omega
    · have := ihr hx
      omega
    · simp only
      omega

theorem pairwise_instructions (e : Expr) (first offset : Nat) :
    (e.instructions first offset).Pairwise fun x y => x.offset < y.offset := by
  induction e generalizing first offset with
  | leaf k v span mark => cases k <;> exact List.pairwise_singleton _ _
  | unary op span mark e ih =>
    refine List.pairwise_append.mpr ⟨ih first offset, List.pairwise_singleton _ _, ?_⟩
    intro x hx y hy
    rw [List.mem_singleton.mp hy]
    exact (offset_mem_instructions hx).2
  | binary op span mark l r ihl ihr =>
    refine List.pairwise_append.mpr ⟨List.pairwise_append.mpr ⟨ihl _ _, ihr _ _, ?_⟩,
      List.pairwise_singleton _ _, ?_⟩
    · intro x hx y hy
      have hleft := offset_mem_instructions hx
      have hright := offset_mem_instructions hy
      omega
    · intro x hx y hy
      rw [List.mem_singleton.mp hy]
      simp only
      rcases List.mem_append.mp hx with hx | hx
      · have := offset_mem_instructions hx
        omega
      · have := offset_mem_instructions hx
        omega

/-- Spans are recorded for the operators, in order. -/
theorem map_offset_locations (e : Expr) (first offset : Nat) :
    (e.locations offset).map Location.offset =
      ((e.instructions first offset).filter (·.op.isOperator)).map fun x => (x.offset : Int) := by
  induction e generalizing first offset with
  | leaf k v span mark => cases k <;> rfl
  | unary op span mark e ih =>
    simp [locations, instructions, Opcode.isOperator, ih first]
  | binary op span mark l r ihl ihr =>
    simp [locations, instructions, Opcode.isOperator, ihl first,
      ihr (first + l.literals.length)]

/-- The span that is recorded for an operator is the span of its node. -/
theorem mem_locations {e : Expr} {first offset start : Nat} {n : Node} {x : Instruction}
    (h : (n, x) ∈ (e.nodes start).zip (e.instructions first offset))
    (hop : x.op.isOperator = true) : ⟨x.offset, n.span⟩ ∈ e.locations offset := by
  induction e generalizing first offset start with
  | leaf k v span mark =>
    cases k <;>
    · obtain ⟨-, rfl⟩ := Prod.mk.inj (List.mem_singleton.mp h)
      cases hop
  | unary op span mark e ih =>
    rw [nodes, instructions, List.zip_append (by simp), List.mem_append] at h
    rw [locations, List.mem_append]
    rcases h with h | h
    · exact .inl (ih h)
    · obtain ⟨rfl, rfl⟩ := Prod.mk.inj (List.mem_singleton.mp h)
      exact .inr (List.mem_singleton.mpr rfl)
  | binary op span mark l r ihl ihr =>
    rw [nodes, instructions, List.zip_append (by simp), List.zip_append (by simp),
      List.mem_append, List.mem_append] at h
    rw [locations, List.mem_append, List.mem_append]
    rcases h with (h | h) | h
    · exact .inl (.inl (ihl h))
    · exact .inl (.inr (ihr h))
    · obtain ⟨rfl, rfl⟩ := Prod.mk.inj (List.mem_singleton.mp h)
      exact .inr (List.mem_singleton.mpr rfl)

end Expr

/-! ## Chunks -/

/-- Where no offset is recorded twice, the span for an offset is the one recorded. -/
theorem lastSpan?_of_mem {xs : List Location} {x : Location}
    (hxs : (xs.map Location.offset).Nodup) (hx : x ∈ xs) :
    lastSpan? xs x.offset = some x.span := by
  have hsome : (xs.reverse.find? fun y => y.offset = x.offset).isSome = true := by
    rw [List.find?_isSome]
    exact ⟨x, List.mem_reverse.mpr hx, by simp⟩
  obtain ⟨y, hy⟩ := Option.isSome_iff_exists.mp hsome
  have hoffset : y.offset = x.offset := by simpa using List.find?_some hy
  have hmem : y ∈ xs := List.mem_reverse.mp (List.mem_of_find?_eq_some hy)
  have hsame : y = x := List.inj_on_of_nodup_map hxs hmem hx hoffset
  rw [lastSpan?, hy, hsame, Option.map_some]

/-- The instructions of a chunk that computes an expression: those of the expression, and
a return. -/
def Expr.program (e : Expr) : List Instruction :=
  e.instructions 0 0 ++ [⟨e.codeSize, .ret, []⟩]

@[simp] theorem Expr.length_program (e : Expr) : e.program.length = e.size + 1 := by
  simp [program]

/-- Of these, the last is the return. -/
theorem Expr.op_eq_ret_iff {e : Expr} {id : Nat} {x : Instruction}
    (h : e.program[id]? = some x) : x.op = .ret ↔ id = e.size := by
  unfold program at h
  by_cases hid : id < e.size
  · rw [List.getElem?_append_left (by simpa using hid)] at h
    have hop := op_ne_ret (List.mem_of_getElem? h)
    exact ⟨fun hret => absurd hret hop, fun heq => by omega⟩
  · rw [List.getElem?_append_right (by simpa using hid), length_instructions] at h
    obtain ⟨hlt, rfl⟩ := List.getElem?_eq_some_iff.mp h
    rw [List.length_singleton] at hlt
    simp only [List.getElem_singleton, true_iff]
    omega

theorem Expr.constants_program (e : Expr) :
    (e.program.filter (·.op = .const)).map Instruction.operand =
      (List.range e.literals.length).map fun i => [UInt8.ofNat i] := by
  rw [List.range_eq_range', ← e.constants_instructions 0 0, program, List.filter_append]
  simp

namespace Expr.Generated

variable {e : Expr} {c : Chunk}

theorem decoded?_eq (hc : e.Generated c) : c.decoded? = some e.program := by
  rw [Chunk.decoded?, hc.code, decodeFrom_code, decodeFrom_op (by simp), Nat.zero_add]
  rfl

theorem pairwise_locations (hc : e.Generated c) :
    c.locations.Pairwise fun x y => x.offset < y.offset := by
  have hoffsets : (c.locations.map Location.offset).Pairwise (· < ·) := by
    rw [hc.locations, e.map_offset_locations 0 0, List.pairwise_map]
    refine ((e.pairwise_instructions 0 0).filter _).imp ?_
    intro x y hlt
    exact Int.ofNat_lt.mpr hlt
  exact List.pairwise_map.mp hoffsets

theorem nodup_locations (hc : e.Generated c) : (c.locations.map Location.offset).Nodup := by
  refine List.pairwise_map.mpr (hc.pairwise_locations.imp ?_)
  intro x y hlt
  exact Int.ne_of_lt hlt

/-- The span of a node is found at the offset of its instruction, if it is an operator. -/
theorem spanAt?_eq {n : Node} {x : Instruction} (hc : e.Generated c)
    (h : (n, x) ∈ (e.nodes 0).zip (e.instructions 0 0)) :
    c.spanAt? x.offset = if x.op.isOperator then some n.span else none := by
  by_cases hop : x.op.isOperator = true
  · have hmem : ⟨x.offset, n.span⟩ ∈ c.locations := by
      rw [hc.locations]
      exact mem_locations h hop
    rw [if_pos hop]
    exact lastSpan?_of_mem hc.nodup_locations hmem
  · rw [if_neg hop]
    show lastSpan? c.locations x.offset = none
    simp only [lastSpan?, Option.map_eq_none_iff, List.find?_eq_none, List.mem_reverse,
      decide_eq_true_eq]
    intro y hy hoffset
    -- Any span at this offset would be that of an operator, which is another instruction.
    have hmem : (x.offset : Int) ∈ c.locations.map Location.offset := by
      rw [← hoffset]
      exact List.mem_map_of_mem hy
    rw [hc.locations, e.map_offset_locations 0 0] at hmem
    obtain ⟨z, hz, hzx⟩ := List.mem_map.mp hmem
    obtain ⟨hz, hzop⟩ := List.mem_filter.mp hz
    have hnodup : ((e.instructions 0 0).map Instruction.offset).Nodup :=
      List.pairwise_map.mpr ((e.pairwise_instructions 0 0).imp fun hlt => Nat.ne_of_lt hlt)
    have hsame : z = x :=
      List.inj_on_of_nodup_map hnodup hz (List.of_mem_zip h).2 (Int.ofNat_inj.mp hzx)
    rw [hsame] at hzop
    exact hop hzop

end Expr.Generated

/-- The code of a chunk is a tree, written node by node and ended by a return. -/
structure Transcribes (c : Chunk) (t : Tree) (code : List Instruction) : Prop where
  /-- The code falls into instructions, without a rest. -/
  decoded : c.decoded? = some code
  /-- There is one for each node, and the last. -/
  count : code.length = t.nodes.size + 1
  listed : c.instructionCount = t.nodes.size + 1
  /-- The last one is a return, and no other. -/
  returns : ∀ (id : Nat) (x : Instruction), code[id]? = some x →
    (x.op = .ret ↔ id = t.nodes.size)
  /-- There is one constant for each instruction that pushes one, in their order. -/
  constants : (code.filter (·.op = .const)).length = c.constants.length
  operands : ∀ (i : Nat) (x : Instruction), (code.filter (·.op = .const))[i]? = some x →
    x.operand.map UInt8.toNat = [i]
  /-- Spans are recorded for the operators only, once for each, in their order. -/
  mapped : c.locations.map Location.offset =
    (code.filter (·.op.isOperator)).map fun x => (x.offset : Int)
  increasing : c.locations.Pairwise fun x y => x.offset < y.offset
  /-- The instruction of a node has the index of the node.  For an operator its span is
  that of the node. -/
  nodes : ∀ (id : Nat) (n : Node), t.nodes[id]? = some n →
    ∃ x, code[id]? = some x ∧ x.op = n.opcode ∧
      c.spanAt? x.offset = if n.opcode.isOperator then some n.span else none

namespace Expr.Generated

variable {e : Expr} {c : Chunk}

/-- The operands of the constants are their indices. -/
theorem operand_eq (hc : e.Generated c) {i : Nat} {x : Instruction}
    (h : (e.program.filter (·.op = .const))[i]? = some x) :
    x.operand.map UInt8.toNat = [i] := by
  have hoperands := congrArg (fun xs => xs[i]?) e.constants_program
  simp only [List.getElem?_map, h, Option.map_some] at hoperands
  obtain ⟨j, hj, hoperand⟩ := Option.map_eq_some_iff.mp hoperands.symm
  obtain ⟨hi, rfl⟩ := List.getElem?_eq_some_iff.mp hj
  have hindexed : e.literals.length ≤ 256 := hc.indexed
  rw [List.length_range] at hi
  rw [← hoperand, List.getElem_range, List.map_singleton, UInt8.toNat_ofNat',
    Nat.mod_eq_of_lt (by omega)]

/-- The instruction of a node has its index. -/
theorem getElem?_instructions {id : Nat} {n : Node} (hc : e.Generated c)
    (hn : (e.nodes 0)[id]? = some n) :
    ∃ x, (e.instructions 0 0)[id]? = some x ∧ x.op = n.opcode ∧
      c.spanAt? x.offset = if n.opcode.isOperator then some n.span else none := by
  have hops := congrArg (fun xs => xs[id]?) (e.map_op_instructions 0 0 0)
  simp only [List.getElem?_map, hn, Option.map_some] at hops
  obtain ⟨x, hx, hop⟩ := Option.map_eq_some_iff.mp hops
  refine ⟨x, hx, hop, ?_⟩
  rw [← hop]
  apply hc.spanAt?_eq
  apply List.mem_of_getElem? (i := id)
  rw [List.getElem?_zip_eq_some]
  exact ⟨hn, hx⟩

theorem transcribes (hc : e.Generated c) : Transcribes c (Tree.ofExpr e) e.program := by
  have hsize : (Tree.ofExpr e).nodes.size = e.size := Tree.size_ofExpr e
  refine ⟨hc.decoded?_eq, ?_, ?_, ?_, ?_, ?_, ?_, hc.pairwise_locations, ?_⟩
  · rw [hsize, length_program]
  · have hlisted := congrArg List.length (Listing.map_offset_walk c.constants hc.decoded?_eq)
    rw [List.length_map, List.length_map, length_program, ← hsize] at hlisted
    exact hlisted
  · intro id x hx
    rw [hsize]
    exact op_eq_ret_iff hx
  · have hcount := congrArg List.length e.constants_program
    rw [hc.constants]
    simpa using hcount
  · intro i x hx
    exact hc.operand_eq hx
  · rw [hc.locations, e.map_offset_locations 0 0, program, List.filter_append]
    simp [Opcode.isOperator]
  · intro id n hn
    rw [← Array.getElem?_toList, Tree.toList_ofExpr] at hn
    obtain ⟨x, hx, hop, hspan⟩ := hc.getElem?_instructions hn
    refine ⟨x, ?_, hop, hspan⟩
    rw [program, List.getElem?_append_left (List.getElem?_eq_some_iff.mp hx).1]
    exact hx

end Expr.Generated

/-- A compiled program is the tree of its source, written node by node. -/
theorem transcribes_of_compile {source : Bytes} {limits : Limits} {p : Program}
    (hcompile : compile source limits = .ok p) :
    ∃ e code, parse source = .ok e ∧ Transcribes p.chunk (Tree.ofExpr e) code := by
  obtain ⟨e, hparse, -, hgenerate⟩ := stages_of_compile hcompile
  have hc : e.Generated p.chunk := Expr.generated_of_generate hgenerate
  exact ⟨e, _, hparse, hc.transcribes⟩

/-- Operands of every kind: the byte `01` behind the second constant is no instruction,
and only the three operators have a span. -/
theorem transcribes_of_compile_comparison :
    let source := utf8 "-1.5<2.5 == true"
    ∃ p, compile source {} = .ok p ∧
      p.chunk.locations = [⟨2, ⟨0, 4⟩⟩, ⟨5, ⟨0, 8⟩⟩, ⟨7, ⟨0, 16⟩⟩] ∧
      ∃ e, parse source = .ok e ∧
        Transcribes p.chunk (Tree.ofExpr e)
          [⟨0, .const, [0]⟩, ⟨2, .unary .negate, []⟩, ⟨3, .const, [1]⟩,
            ⟨5, .binary .less, []⟩, ⟨6, .truth true, []⟩, ⟨7, .binary .equal, []⟩,
            ⟨8, .ret, []⟩] := by
  intro source
  let p : Program :=
    { source, kind := .bool, warnings := [],
      chunk :=
        { Chunk.empty with
          code? := some [0x10, 0, 0x55, 0x10, 1, 0x62, 0x12, 0x60, 0xf0]
          constants := [.float ⟨0x3fc00000⟩, .float ⟨0x40200000⟩]
          locations := [⟨2, ⟨0, 4⟩⟩, ⟨5, ⟨0, 8⟩⟩, ⟨7, ⟨0, 16⟩⟩] } }
  have hcompile : compile source {} = .ok p := by decide +kernel
  obtain ⟨e, code, hparse, htree⟩ := transcribes_of_compile hcompile
  have hdecoded := htree.decoded
  rw [show p.chunk.decoded? = some _ from rfl, Option.some.injEq] at hdecoded
  rw [← hdecoded] at htree
  exact ⟨p, hcompile, rfl, e, hparse, htree⟩

end Abacus
