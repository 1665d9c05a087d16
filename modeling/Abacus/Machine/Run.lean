import Abacus.Machine.Chunk
import Abacus.Machine.Fault

/-!
# The stack machine

The machine reads its code from the front and never jumps, so a run is a walk
over the code bytes with a stack of values.  The stack holds at most `capacity`
values.  A run ends with the value that a return instruction takes from the
stack, or with a fault.

A run also tells which instructions it read, in order, and how many values the
stack held before each.
-/

namespace Abacus

/-- The stack; its head is the top. -/
abbrev Stack := List Value

namespace Stack

/-- Puts a value on the stack, if there is room. -/
def push (capacity : Nat) (v : Value) (s : Stack) : Except FaultCause Stack :=
  if capacity ≤ s.length then .error (.stackOverflow capacity) else .ok (v :: s)

/-- Replaces the top value by an operator's result. -/
def unary (op : UnaryOp) : Stack → Except FaultCause Stack
  | v :: s =>
    match op.apply v with
    | .ok r => .ok (r :: s)
    | .error e => .error (.ofUnary op v e)
  | [] => .error .stackUnderflow

/-- Replaces the two top values by an operator's result.  The right operand is
on top of the left one. -/
def binary (op : BinaryOp) : Stack → Except FaultCause Stack
  | w :: v :: s =>
    match op.apply v w with
    | .ok r => .ok (r :: s)
    | .error e => .error (.ofBinary op v w e)
  | _ => .error .stackUnderflow

end Stack

/-- An instruction that the machine read, and the height of the stack before it. -/
structure TraceEntry where
  offset : Nat
  op : UInt8
  height : Nat
  deriving DecidableEq

/-- The entry as a line of a trace. -/
def TraceEntry.line (t : TraceEntry) : Bytes :=
  utf8 "[" ++ Bytes.hexLower 4 t.offset ++ utf8 "] " ++
    Bytes.padRight 12 (Opcode.nameOfByte t.op) ++ utf8 " sp=" ++ Bytes.ofNat t.height ++ utf8 "\n"

/-- A run: the instructions that were read, and how it ended. -/
structure Execution where
  trace : List TraceEntry
  result : Except RuntimeFault Value

namespace Execution

/-- A run that ends at its first instruction. -/
def ended (t : TraceEntry) (result : Except RuntimeFault Value) : Execution :=
  ⟨[t], result⟩

/-- A run with one more instruction in front. -/
def after (t : TraceEntry) (e : Execution) : Execution :=
  ⟨t :: e.trace, e.result⟩

/-- The lines of the trace. -/
def traceText (e : Execution) : Bytes :=
  e.trace.flatMap TraceEntry.line

end Execution

/-- What an instruction without an operand makes of the stack.  Pushing a
constant and returning are not among them. -/
def Opcode.effect (capacity : Nat) (s : Stack) : Opcode → Except FaultCause Stack
  | .truth b => s.push capacity (.bool b)
  | .unary op => s.unary op
  | .binary op => s.binary op
  | .const | .ret => .ok s

/-- Runs the code that starts at `offset` with the given stack. -/
def runFrom (pool : List Value) (capacity : Nat) : Nat → Stack → Bytes → Execution
  | offset, _, [] => ⟨[], .error ⟨Opcode.ret.byte, offset, .missingReturn⟩⟩
  | offset, s, b :: rest =>
    let entry : TraceEntry := ⟨offset, b, s.length⟩
    let fault (cause : FaultCause) : Execution := .ended entry (.error ⟨b, offset, cause⟩)
    match Opcode.ofByte? b with
    | none => fault (.unknownOpcode b)
    | some .const =>
      match rest with
      | [] => fault .truncated
      | index :: rest =>
        match pool[index.toNat]? with
        | none => fault (.badConstant index.toNat pool.length)
        | some v =>
          match s.push capacity v with
          | .error cause => fault cause
          | .ok s => .after entry (runFrom pool capacity (offset + 2) s rest)
    | some .ret =>
      match s with
      | [] => fault .stackUnderflow
      | v :: _ => .ended entry (.ok v)
    | some op =>
      match op.effect capacity s with
      | .error cause => fault cause
      | .ok s => .after entry (runFrom pool capacity (offset + 1) s rest)

/-- Runs a chunk on an empty stack of the given capacity. -/
def Chunk.run (c : Chunk) (capacity : Nat) : Execution :=
  runFrom c.constants capacity 0 [] c.code

/-! ## Machines -/

/-- What a machine did last. -/
inductive MachineState where
  /-- Nothing yet. -/
  | running
  /-- It returned a value. -/
  | returned
  /-- It stopped with a fault. -/
  | faulted
  deriving DecidableEq

namespace MachineState

/-- The number of the state. -/
def code : MachineState → Nat
  | .running => 0
  | .returned => 1
  | .faulted => 2

/-- The state in a word. -/
def name : MachineState → Bytes
  | .running => utf8 "running"
  | .returned => utf8 "returned"
  | .faulted => utf8 "faulted"

/-- The name of the state with the given number. -/
def nameOfCode (n : Int) : Bytes :=
  match [running, returned, faulted].find? fun s => s.code = n with
  | some s => s.name
  | none => utf8 "State(" ++ Bytes.ofInt n ++ utf8 ")"

end MachineState

/-- A machine that runs one chunk after another.  Each run starts on an empty
stack, so nothing but the state is left of a run. -/
structure Machine where
  capacity : Nat
  state : MachineState
  deriving DecidableEq

namespace Machine

/-- The capacity of a stack for which none is asked. -/
def defaultCapacity : Nat := 256

/-- The capacity that a depth asks for; one that is not positive asks for none. -/
def capacityOf (depth : Int) : Nat :=
  if depth ≤ 0 then defaultCapacity else depth.toNat

/-- A fresh machine with the given depth of stack. -/
def withDepth (depth : Int) : Machine :=
  ⟨capacityOf depth, .running⟩

/-- Runs a chunk. -/
def execute (m : Machine) (c : Chunk) : Execution × Machine :=
  let e := c.run m.capacity
  let state :=
    match e.result with
    | .ok _ => .returned
    | .error _ => .faulted
  (e, { m with state })

end Machine

end Abacus
