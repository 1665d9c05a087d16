import Abacus.Operator

/-!
# The instruction set

Every instruction is one byte, and the instruction that pushes a constant has
one operand byte with the index of the constant.
-/

namespace Abacus

/-- The instructions of the stack machine. -/
inductive Opcode where
  /-- Push the constant whose index is the operand byte. -/
  | const
  /-- Push a truth value. -/
  | truth (b : Bool)
  /-- Replace the top value by an operator's result. -/
  | unary (op : UnaryOp)
  /-- Replace the two top values by an operator's result. -/
  | binary (op : BinaryOp)
  /-- End with the top value. -/
  | ret
  deriving DecidableEq

namespace Opcode

/-- The byte of an instruction. -/
def byte : Opcode → UInt8
  | .const => 0x10
  | .truth true => 0x12
  | .truth false => 0x13
  | .binary .add => 0x50
  | .binary .sub => 0x51
  | .binary .mul => 0x52
  | .binary .div => 0x53
  | .unary .negate => 0x55
  | .binary .equal => 0x60
  | .binary .notEqual => 0x61
  | .binary .less => 0x62
  | .binary .lessEqual => 0x63
  | .binary .greater => 0x64
  | .binary .greaterEqual => 0x65
  | .unary .not => 0x68
  | .binary .and => 0x69
  | .binary .or => 0x6a
  | .ret => 0xf0

/-- All instructions, in the order of their bytes. -/
def all : List Opcode :=
  [.const, .truth true, .truth false,
   .binary .add, .binary .sub, .binary .mul, .binary .div, .unary .negate,
   .binary .equal, .binary .notEqual, .binary .less, .binary .lessEqual,
   .binary .greater, .binary .greaterEqual,
   .unary .not, .binary .and, .binary .or, .ret]

/-- The instruction with the given byte. -/
def ofByte? (b : UInt8) : Option Opcode :=
  all.find? fun op => op.byte = b

/-- The name of an instruction. -/
def name : Opcode → Bytes
  | .const => utf8 "CONST"
  | .truth true => utf8 "CONST_TRUE"
  | .truth false => utf8 "CONST_FALSE"
  | .binary .add => utf8 "ADD"
  | .binary .sub => utf8 "SUB"
  | .binary .mul => utf8 "MUL"
  | .binary .div => utf8 "DIV"
  | .unary .negate => utf8 "NEG"
  | .binary .equal => utf8 "EQ"
  | .binary .notEqual => utf8 "NE"
  | .binary .less => utf8 "LT"
  | .binary .lessEqual => utf8 "LE"
  | .binary .greater => utf8 "GT"
  | .binary .greaterEqual => utf8 "GE"
  | .unary .not => utf8 "NOT"
  | .binary .and => utf8 "AND"
  | .binary .or => utf8 "OR"
  | .ret => utf8 "RETURN"

/-- How many values the instruction takes from the stack. -/
def pops : Opcode → Nat
  | .const | .truth _ => 0
  | .unary _ | .ret => 1
  | .binary _ => 2

/-- How many values the instruction puts on the stack. -/
def pushes : Opcode → Nat
  | .ret => 0
  | _ => 1

/-- How many operand bytes follow the instruction. -/
def operandLength : Opcode → Nat
  | .const => 1
  | _ => 0

/-- The length of the instruction with its operand. -/
def length (op : Opcode) : Nat :=
  1 + op.operandLength

/-- Whether the instruction is one of the four arithmetic ones. -/
def isArithmetic : Opcode → Bool
  | .binary op => op.isArithmetic
  | _ => false

/-- Whether the instruction compares two values. -/
def isComparison : Opcode → Bool
  | .binary op => op.isComparison
  | _ => false

/-- The name of the instruction with the given byte, if there is one. -/
def nameOfByte (b : UInt8) : Bytes :=
  match ofByte? b with
  | some op => op.name
  | none => utf8 "UNKNOWN(0x" ++ Bytes.hexUpper 2 b.toNat ++ utf8 ")"

end Opcode

end Abacus
