import Abacus.Value
import Abacus.Machine.Opcode

/-!
# Faults

What can stop the machine, and how it is worded.
-/

namespace Abacus

/-- Why an instruction cannot be executed. -/
inductive FaultCause where
  /-- The byte is no instruction. -/
  | unknownOpcode (b : UInt8)
  /-- A unary operator does not accept a value of this kind. -/
  | unaryMismatch (op : UnaryOp) (k : Kind)
  /-- A binary operator does not accept values of these kinds. -/
  | binaryMismatch (op : BinaryOp) (k l : Kind)
  /-- The stack holds as many values as it has room for. -/
  | stackOverflow (capacity : Nat)
  /-- The stack holds fewer values than the instruction takes. -/
  | stackUnderflow
  /-- There is no constant with this index. -/
  | badConstant (index count : Nat)
  /-- The operand byte is missing. -/
  | truncated
  /-- The divisor of an integer division is zero. -/
  | divisionByZero
  /-- The code ends without a return. -/
  | missingReturn
  deriving DecidableEq

namespace FaultCause

/-- The text that names every mismatch. -/
def mismatchText : Bytes :=
  utf8 "operand type mismatch: cannot "

/-- The cause in words. -/
def message : FaultCause → Bytes
  | .unknownOpcode b => utf8 "unknown opcode 0x" ++ Bytes.hexUpper 2 b.toNat
  | .unaryMismatch .negate k => mismatchText ++ utf8 "negate " ++ k.name
  | .unaryMismatch .not k => mismatchText ++ utf8 "apply NOT to " ++ k.name
  | .binaryMismatch op k l =>
    mismatchText ++ utf8 "apply " ++ (Opcode.binary op).name ++ utf8 " to " ++ k.name ++
      utf8 " and " ++ l.name
  | .stackOverflow capacity => utf8 "stack overflow: capacity " ++ Bytes.ofNat capacity
  | .stackUnderflow => utf8 "stack underflow"
  | .badConstant index count =>
    utf8 "constant index out of range: " ++ Bytes.ofNat index ++ utf8 " of " ++ Bytes.ofNat count
  | .truncated => utf8 "truncated instruction"
  | .divisionByZero => utf8 "integer division by zero"
  | .missingReturn => utf8 "code ended without RETURN"

/-- The cause of a unary operator's failure on a value. -/
def ofUnary (op : UnaryOp) (v : Value) : OpFault → FaultCause
  | .mismatch => .unaryMismatch op v.kind
  | .zeroDivisor => .divisionByZero

/-- The cause of a binary operator's failure on two values. -/
def ofBinary (op : BinaryOp) (v w : Value) : OpFault → FaultCause
  | .mismatch => .binaryMismatch op v.kind w.kind
  | .zeroDivisor => .divisionByZero

end FaultCause

/-- A fault with the instruction byte that caused it and its offset. -/
structure RuntimeFault where
  op : UInt8
  offset : Nat
  cause : FaultCause
  deriving DecidableEq

/-- The fault in words. -/
def RuntimeFault.message (f : RuntimeFault) : Bytes :=
  utf8 "runtime error at " ++ Bytes.hexUpper 4 f.offset ++ utf8 " (" ++ Opcode.nameOfByte f.op ++
    utf8 "): " ++ f.cause.message

end Abacus
