import Abacus.Emit.Statement
import Abacus.Machine.Chunk
import Abacus.Machine.Fault

/-!
# Function bodies

The body of the function that a chunk becomes.  The code is walked once with a
stack of locals and their kinds.  Each instruction that would push a value
declares the next local.  Whatever would make every run of the machine fault is
found here and reported as that fault; only a division by zero is left to the
statements.
-/

namespace Abacus

/-- A local on the stack, and the kind of its value. -/
structure Slot where
  index : Nat
  kind : Kind
  deriving DecidableEq

/-- The statements of a function body and the kind of its result. -/
structure Body where
  statements : List Statement
  kind : Kind
  deriving DecidableEq

namespace Body

/-- A body with more statements in front. -/
def before (statements : List Statement) : Except RuntimeFault Body → Except RuntimeFault Body
  | .ok b => .ok { b with statements := statements ++ b.statements }
  | .error f => .error f

/-- Whether one more local exceeds the depth; a depth that is not positive has
no bound. -/
def isFull (depth : Int) (stack : List Slot) : Bool :=
  0 < depth && depth ≤ stack.length

/-- Whether a binary operator accepts operands of these kinds. -/
def operandsFit (op : BinaryOp) (k l : Kind) : Bool :=
  k = l && op.operands.accepts k

/-- The guard of a division, which only integers need. -/
def guard (op : BinaryOp) (k : Kind) (divisor : Nat) : List Statement :=
  if op = .div ∧ k = .int then [.guardZero divisor] else []

/-- The body for the code that starts at `offset`, where `next` is the number of
the next local.  A constant that finds the stack full is a fault; the result of
an operator would be left out without one, but its operands have always made
room for it. -/
def ofCode (pool : List Value) (depth : Int) :
    Nat → Nat → List Slot → Bytes → Except RuntimeFault Body
  | offset, _, _, [] => .error ⟨Opcode.ret.byte, offset, .missingReturn⟩
  | offset, next, stack, b :: rest =>
    let fault (cause : FaultCause) : Except RuntimeFault Body := .error ⟨b, offset, cause⟩
    match Opcode.ofByte? b with
    | none => fault (.unknownOpcode b)
    | some .const =>
      match rest with
      | [] => fault .truncated
      | index :: rest =>
        match pool[index.toNat]? with
        | none => fault (.badConstant index.toNat pool.length)
        | some v =>
          if isFull depth stack then fault (.stackOverflow depth.toNat)
          else
            before [.declare next (.constant v)]
              (ofCode pool depth (offset + 2) (next + 1) (⟨next, v.kind⟩ :: stack) rest)
    | some (.truth t) =>
      if isFull depth stack then fault (.stackOverflow depth.toNat)
      else
        before [.declare next (.truth t)]
          (ofCode pool depth (offset + 1) (next + 1) (⟨next, .bool⟩ :: stack) rest)
    | some (.unary op) =>
      match stack with
      | [] => fault .stackUnderflow
      | a :: stack =>
        if op.operands.accepts a.kind then
          if isFull depth stack then ofCode pool depth (offset + 1) next stack rest
          else
            before [.declare next (.unary op a.index)]
              (ofCode pool depth (offset + 1) (next + 1)
                (⟨next, op.resultKind a.kind⟩ :: stack) rest)
        else fault (.unaryMismatch op a.kind)
    | some (.binary op) =>
      match stack with
      | r :: l :: stack =>
        if operandsFit op l.kind r.kind then
          before (guard op l.kind r.index)
            (if isFull depth stack then ofCode pool depth (offset + 1) next stack rest
            else
              before [.declare next (.binary op l.index r.index)]
                (ofCode pool depth (offset + 1) (next + 1)
                  (⟨next, op.resultKind l.kind⟩ :: stack) rest))
        else fault (.binaryMismatch op l.kind r.kind)
      | _ => fault .stackUnderflow
    | some .ret =>
      match stack with
      | [] => fault .stackUnderflow
      | a :: stack =>
        .ok ⟨stack.reverse.map (fun s => .discard s.index) ++ [.result a.index], a.kind⟩

end Body

/-- The function body of a chunk, for a stack of the given depth. -/
def Chunk.body (c : Chunk) (depth : Int) : Except RuntimeFault Body :=
  Body.ofCode c.constants depth 0 0 [] c.code

end Abacus
