import Abacus.Proofs.Failing
import Abacus.Proofs.Machine.Stepping

/-!
# The stack in a fixed array

`runFrom` keeps its values in a list, which has no ends to run over.  Here is the
same machine with its stack in a fixed number of slots.  A state has the offset of
the next byte, the number of slots in use, and the slots.  Nothing guards an index
but the tests that stand in the definitions: one outside the code or outside the
slots *strays*.

`Registers.Models` relates a state to a list of values: the slots in use hold them,
the top one last.  `Models.tracks_effect` says that an instruction does to the slots
what it does to the list, and so does not stray.
-/

namespace Abacus

/-! ## The machine -/

/-- Why an instruction is not completed. -/
inductive Halt where
  | fault (cause : FaultCause)
  /-- An index outside the code or outside the slots was used. -/
  | stray
  deriving DecidableEq

/-- A state of the machine. -/
structure Registers where
  /-- The offset of the next byte. -/
  ip : Nat
  /-- How many slots are in use. -/
  sp : Nat
  slots : List Value
  deriving DecidableEq

namespace Registers

/-- The state in which a run starts.  The slots hold what the run before has left
there. -/
def start (slots : List Value) : Registers :=
  ⟨0, 0, slots⟩

/-- Reads the next byte of the code. -/
def fetch (code : Bytes) (r : Registers) : Except Halt (UInt8 × Registers) :=
  match code[r.ip]? with
  | some b => .ok (b, { r with ip := r.ip + 1 })
  | none => .error .stray

/-- The value in a slot. -/
def load (r : Registers) (i : Nat) : Except Halt Value :=
  match r.slots[i]? with
  | some v => .ok v
  | none => .error .stray

/-- Puts a value into the slot behind those in use, without a test for room. -/
def store (v : Value) (r : Registers) : Except Halt Registers :=
  if r.sp < r.slots.length then .ok { r with sp := r.sp + 1, slots := r.slots.set r.sp v }
  else .error .stray

/-- Puts a value on the stack, if there is room. -/
def push (v : Value) (r : Registers) : Except Halt Registers :=
  if r.slots.length ≤ r.sp then .error (.fault (.stackOverflow r.slots.length)) else r.store v

/-- Takes the top value. -/
def pop (r : Registers) : Except Halt (Value × Registers) :=
  match r.sp with
  | 0 => .error (.fault .stackUnderflow)
  | n + 1 => do
    let v ← r.load n
    return (v, { r with sp := n })

/-- Takes the two top values; the right operand is the upper one. -/
def popTwo (r : Registers) : Except Halt (Value × Value × Registers) :=
  match r.sp with
  | 0 | 1 => .error (.fault .stackUnderflow)
  | n + 2 => do
    let w ← r.load (n + 1)
    let v ← r.load n
    return (v, w, { r with sp := n })

/-- Carries out an instruction whose own byte has been read.  A return gives the
value that it takes. -/
def perform (c : Chunk) (r : Registers) : Opcode → Except Halt (Option Value × Registers)
  | .const =>
    if c.code.length ≤ r.ip then .error (.fault .truncated)
    else do
      let (index, r) ← r.fetch c.code
      match c.constant? index.toNat with
      | none => .error (.fault (.badConstant index.toNat c.constants.length))
      | some v => return (none, ← r.push v)
  | .truth b => do return (none, ← r.push (.bool b))
  | .unary op => do
    let (v, r) ← r.pop
    match op.apply v with
    | .ok x => return (none, ← r.store x)
    | .error e => .error (.fault (.ofUnary op v e))
  | .binary op => do
    let (v, w, r) ← r.popTwo
    match op.apply v w with
    | .ok x => return (none, ← r.store x)
    | .error e => .error (.fault (.ofBinary op v w e))
  | .ret => do
    let (v, r) ← r.pop
    return (some v, r)

end Registers

/-- What the machine does in a state. -/
inductive Turn where
  /-- It completes an instruction and goes on. -/
  | goesOn (r : Registers)
  /-- It completes a return. -/
  | returns (v : Value) (r : Registers)
  | faults (f : RuntimeFault)
  | strays
  deriving DecidableEq

/-- The turn of an instruction that stands at an offset and has been carried out. -/
def Turn.ofPerformed (b : UInt8) (offset : Nat) : Except Halt (Option Value × Registers) → Turn
  | .ok (none, r) => .goesOn r
  | .ok (some v, r) => .returns v r
  | .error (.fault cause) => .faults ⟨b, offset, cause⟩
  | .error .stray => .strays

namespace Registers

/-- Reads an instruction and carries it out. -/
def turn (c : Chunk) (r : Registers) : Turn :=
  if c.code.length ≤ r.ip then .faults ⟨Opcode.ret.byte, r.ip, .missingReturn⟩
  else
    match r.fetch c.code with
    | .error _ => .strays
    | .ok (b, r') =>
      match Opcode.ofByte? b with
      | none => .faults ⟨b, r.ip, .unknownOpcode b⟩
      | some op => .ofPerformed b r.ip (r'.perform c op)

/-- The instruction that is read in a state, if the code goes on. -/
def reads (c : Chunk) (r : Registers) : List TraceEntry :=
  match c.code[r.ip]? with
  | some b => [⟨r.ip, b, r.sp⟩]
  | none => []

/-- The states that a run comes through. -/
inductive Reachable (c : Chunk) (capacity : Nat) : Registers → Prop where
  | start {slots : List Value} (h : slots.length = capacity) : Reachable c capacity (.start slots)
  | turn {r r' : Registers} (h : Reachable c capacity r) (hturn : r.turn c = .goesOn r') :
      Reachable c capacity r'

/-- The run from a state on: the instructions that are read, and the end. -/
inductive Runs (c : Chunk) : Registers → Execution → Prop where
  | goesOn {r r' : Registers} {e : Execution} (hturn : r.turn c = .goesOn r') (h : Runs c r' e) :
      Runs c r ⟨r.reads c ++ e.trace, e.result⟩
  | returns {r r' : Registers} {v : Value} (hturn : r.turn c = .returns v r') :
      Runs c r ⟨r.reads c, .ok v⟩
  | faults {r : Registers} {f : RuntimeFault} (hturn : r.turn c = .faults f) :
      Runs c r ⟨r.reads c, .error f⟩

/-! ## States and stacks -/

/-- The slots in use hold the values of a stack, the top one last. -/
structure Models (capacity : Nat) (r : Registers) (s : Stack) : Prop where
  room : r.slots.length = capacity
  count : r.sp = s.length
  values : r.slots.take r.sp = s.reverse

section Models

variable {capacity : Nat} {r : Registers} {s : Stack} {v w : Value}

theorem models_start {slots : List Value} (h : slots.length = capacity) :
    Models capacity (start slots) [] :=
  ⟨h, rfl, rfl⟩

theorem Models.sp_le (h : Models capacity r s) : r.sp ≤ capacity := by
  have hlength := congrArg List.length h.values
  rw [List.length_take, List.length_reverse, h.room, h.count] at hlength
  rw [h.count]
  omega

theorem Models.load (h : Models capacity r s) {i : Nat} (hi : s.reverse[i]? = some v) :
    r.load i = .ok v := by
  rw [← h.values] at hi
  have hlt : i < r.sp := by
    have := (List.getElem?_eq_some_iff.mp hi).1
    rw [List.length_take] at this
    omega
  rw [List.getElem?_take_of_lt hlt] at hi
  rw [Registers.load, hi]

/-- Fewer slots in use hold the lower values. -/
theorem Models.lower {t : Stack} (h : Models capacity r (t ++ s)) :
    Models capacity { r with sp := s.length } s := by
  have hle : s.length ≤ r.sp := by
    rw [h.count, List.length_append]
    omega
  refine ⟨h.room, rfl, ?_⟩
  have htake := congrArg (List.take s.length) h.values
  rw [List.take_take, Nat.min_eq_left hle, List.reverse_append] at htake
  rw [htake, List.take_left' List.length_reverse]

theorem Models.store (h : Models capacity r s) (hroom : s.length < capacity) (v : Value) :
    ∃ r', r.store v = .ok r' ∧ r'.ip = r.ip ∧ Models capacity r' (v :: s) := by
  have hlt : r.sp < r.slots.length := by rw [h.room, h.count]; exact hroom
  refine ⟨_, if_pos hlt, rfl, ?_, ?_, ?_⟩
  · simp [h.room]
  · simp [h.count]
  · simp only [List.take_add_one, List.getElem?_set_self hlt, List.take_set_of_le (Nat.le_refl _),
      h.values, List.reverse_cons]
    rfl

/-- Operands make room for a result. -/
theorem Models.replace {t : Stack} (h : Models capacity r (t ++ s)) (ht : 0 < t.length)
    (x : Value) :
    ∃ r', ({ r with sp := s.length } : Registers).store x = .ok r' ∧ r'.ip = r.ip ∧
      Models capacity r' (x :: s) := by
  have hroom : s.length < capacity := by
    have hle := h.sp_le
    rw [h.count, List.length_append] at hle
    omega
  exact h.lower.store hroom x

theorem Models.pop_nil (h : Models capacity r []) : r.pop = .error (.fault .stackUnderflow) := by
  have hsp : r.sp = 0 := h.count
  rw [Registers.pop, hsp]

theorem Models.pop_cons (h : Models capacity r (v :: s)) :
    r.pop = .ok (v, { r with sp := s.length }) := by
  have hsp : r.sp = s.length + 1 := h.count
  have hload : r.load s.length = .ok v := h.load (by simp)
  simp only [Registers.pop, hsp, hload, ok_bind]
  rfl

theorem Models.popTwo_short (h : Models capacity r s) (hshort : s.length < 2) :
    r.popTwo = .error (.fault .stackUnderflow) := by
  have hsp : r.sp = s.length := h.count
  unfold Registers.popTwo
  split
  · rfl
  · rfl
  · omega

theorem Models.popTwo_cons (h : Models capacity r (w :: v :: s)) :
    r.popTwo = .ok (v, w, { r with sp := s.length }) := by
  have hsp : r.sp = s.length + 2 := h.count
  have hupper : r.load (s.length + 1) = .ok w := h.load (by simp)
  have hlower : r.load s.length = .ok v := h.load (by simp)
  simp only [Registers.popTwo, hsp, hupper, hlower, ok_bind]
  rfl

end Models

/-! ## Instructions -/

/-- What an instruction does to the slots is what it does to the stack. -/
def Tracks (capacity : Nat) (r : Registers) (performed : Except Halt (Option Value × Registers)) :
    Except FaultCause Stack → Prop
  | .ok s => ∃ r', performed = .ok (none, r') ∧ r'.ip = r.ip ∧ Models capacity r' s
  | .error cause => performed = .error (.fault cause)

section Instructions

variable {capacity : Nat} {r : Registers} {s : Stack}

theorem Models.tracks_push (h : Models capacity r s) (v : Value) :
    Tracks capacity r (do return (none, ← r.push v)) (s.push capacity v) := by
  unfold Registers.push Stack.push
  rw [h.room, h.count]
  by_cases hfull : capacity ≤ s.length
  · simp only [if_pos hfull]
    rfl
  · obtain ⟨r', hr', hip, hmodels⟩ := h.store (by omega) v
    simp only [if_neg hfull, hr']
    exact ⟨r', rfl, hip, hmodels⟩

theorem Models.tracks_unary (h : Models capacity r s) (c : Chunk) (op : UnaryOp) :
    Tracks capacity r (r.perform c (.unary op)) (s.unary op) := by
  unfold perform Stack.unary
  cases s with
  | nil =>
    simp only [h.pop_nil]
    rfl
  | cons v s =>
    simp only [h.pop_cons, ok_bind]
    cases op.apply v with
    | error e => rfl
    | ok x =>
      obtain ⟨r', hr', hip, hmodels⟩ := h.replace (t := [v]) Nat.one_pos x
      simp only [hr']
      exact ⟨r', rfl, hip, hmodels⟩

theorem Models.tracks_binary (h : Models capacity r s) (c : Chunk) (op : BinaryOp) :
    Tracks capacity r (r.perform c (.binary op)) (s.binary op) := by
  unfold perform Stack.binary
  match s, h with
  | [], h =>
    simp only [h.popTwo_short (by simp)]
    rfl
  | [v], h =>
    simp only [h.popTwo_short (by simp)]
    rfl
  | w :: v :: s, h =>
    simp only [h.popTwo_cons, ok_bind]
    cases op.apply v w with
    | error e => rfl
    | ok x =>
      obtain ⟨r', hr', hip, hmodels⟩ := h.replace (t := [w, v]) Nat.two_pos x
      simp only [hr']
      exact ⟨r', rfl, hip, hmodels⟩

theorem Models.tracks_effect (h : Models capacity r s) (c : Chunk) {op : Opcode}
    (hconst : op ≠ .const) (hret : op ≠ .ret) :
    Tracks capacity r (r.perform c op) (op.effect capacity s) := by
  cases op with
  | const => contradiction
  | truth b => exact h.tracks_push (.bool b)
  | unary op => exact h.tracks_unary c op
  | binary op => exact h.tracks_binary c op
  | ret => contradiction

end Instructions

end Registers

end Abacus
