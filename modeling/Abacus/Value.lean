import Abacus.Operator
import Abacus.Number.FloatText

/-!
# Values

A value is a 32-bit integer, a floating-point number or a truth value.  A
constant pool made by hand may also hold the untagged value, on which no
operator is defined.

`UnaryOp.apply` and `BinaryOp.apply` give the meaning of the operators:
integer arithmetic wraps modulo `2 ^ 32`, division truncates toward zero, and
operands that do not fit an operator are an error.
-/

namespace Abacus

/-- The kind of a value. -/
inductive Kind where
  | untagged | int | float | bool
  deriving DecidableEq

namespace Kind

/-- The number of the kind in an encoded constant. -/
def code : Kind → Nat
  | .untagged => 0
  | .int => 1
  | .float => 2
  | .bool => 3

/-- The kind with the given number. -/
def ofCode? : Nat → Option Kind
  | 0 => some .untagged
  | 1 => some .int
  | 2 => some .float
  | 3 => some .bool
  | _ => none

/-- How a number that is no kind of a proper value is shown. -/
def unnamed (n : Nat) : Bytes :=
  utf8 "ValueKind(" ++ Bytes.ofNat n ++ utf8 ")"

/-- The name of the kind in messages. -/
def name : Kind → Bytes
  | .untagged => unnamed 0
  | .int => utf8 "int"
  | .float => utf8 "float"
  | .bool => utf8 "bool"

/-- The name of the kind with the given number. -/
def nameOfCode (n : Nat) : Bytes :=
  match ofCode? n with
  | some k => k.name
  | none => unnamed n

/-- Whether arithmetic is defined on the kind. -/
def isNumeric : Kind → Bool
  | .int | .float => true
  | _ => false

end Kind

/-- Whether operands of the kind belong to the class. -/
def OperandClass.accepts : OperandClass → Kind → Bool
  | .numeric, k => k.isNumeric
  | .any, _ => true
  | .boolean, k => k = .bool

/-- The kind of an operator's result on an operand of the given kind. -/
def UnaryOp.resultKind : UnaryOp → Kind → Kind
  | .negate, k => k
  | .not, _ => .bool

/-- The kind of an operator's result on operands of the given kind. -/
def BinaryOp.resultKind (op : BinaryOp) (k : Kind) : Kind :=
  if op.isArithmetic then k else .bool

/-- A value. -/
inductive Value where
  | untagged
  | int (i : Int32)
  | float (x : Binary32)
  | bool (b : Bool)
  deriving DecidableEq

namespace Value

/-- The kind of a value. -/
def kind : Value → Kind
  | .untagged => .untagged
  | .int _ => .int
  | .float _ => .float
  | .bool _ => .bool

/-- The 32 bits of a value. -/
def bits : Value → UInt32
  | .untagged => 0
  | .int i => i.toUInt32
  | .float x => x.bits
  | .bool b => if b then 1 else 0

/-- Whether some bit of the value is set. -/
def truth (v : Value) : Bool :=
  v.bits ≠ 0

/-- Equality of kind and content; floating-point numbers compare as numbers. -/
def equals : Value → Value → Bool
  | .float x, .float y => x.eq y
  | v, w => v = w

/-- The content of a value without its kind. -/
def text : Value → Bytes
  | .untagged => utf8 "<invalid>"
  | .int i => Bytes.ofInt i.toInt
  | .float x => x.text
  | .bool b => utf8 (if b then "true" else "false")

/-- The content and the kind of a value, as in `5 (int)`. -/
def describe (v : Value) : Bytes :=
  v.text ++ utf8 " (" ++ v.kind.name ++ utf8 ")"

end Value

/-! ## The meaning of the operators -/

/-- Why an operator has no result. -/
inductive OpFault where
  /-- The operands are of kinds that the operator does not accept. -/
  | mismatch
  /-- The divisor of an integer division is zero. -/
  | zeroDivisor
  deriving DecidableEq

/-- The result of a unary operator. -/
def UnaryOp.apply : UnaryOp → Value → Except OpFault Value
  | .negate, .int i => .ok (.int (-i))
  | .negate, .float x => .ok (.float x.neg)
  | .not, .bool b => .ok (.bool !b)
  | _, _ => .error .mismatch

namespace BinaryOp

/-- The result of an operator on integers. -/
def onInts (op : BinaryOp) (i j : Int32) : Except OpFault Value :=
  match op with
  | .add => .ok (.int (i + j))
  | .sub => .ok (.int (i - j))
  | .mul => .ok (.int (i * j))
  | .div => if j = 0 then .error .zeroDivisor else .ok (.int (i / j))
  | .greater => .ok (.bool (j < i))
  | .less => .ok (.bool (i < j))
  | .greaterEqual => .ok (.bool (j ≤ i))
  | .lessEqual => .ok (.bool (i ≤ j))
  | .equal => .ok (.bool (i = j))
  | .notEqual => .ok (.bool (i ≠ j))
  | .and | .or => .error .mismatch

/-- The result of an operator on floating-point numbers. -/
def onFloats (op : BinaryOp) (x y : Binary32) : Except OpFault Value :=
  match op with
  | .add => .ok (.float (x.add y))
  | .sub => .ok (.float (x.sub y))
  | .mul => .ok (.float (x.mul y))
  | .div => .ok (.float (x.div y))
  | .greater => .ok (.bool (y.lt x))
  | .less => .ok (.bool (x.lt y))
  | .greaterEqual => .ok (.bool (y.le x))
  | .lessEqual => .ok (.bool (x.le y))
  | .equal => .ok (.bool (x.eq y))
  | .notEqual => .ok (.bool !(x.eq y))
  | .and | .or => .error .mismatch

/-- The result of an operator on truth values. -/
def onBools (op : BinaryOp) (b c : Bool) : Except OpFault Value :=
  match op with
  | .equal => .ok (.bool (b = c))
  | .notEqual => .ok (.bool (b ≠ c))
  | .and => .ok (.bool (b && c))
  | .or => .ok (.bool (b || c))
  | _ => .error .mismatch

/-- The result of an operator on untagged values, which are only ever equal. -/
def onUntagged : BinaryOp → Except OpFault Value
  | .equal => .ok (.bool true)
  | .notEqual => .ok (.bool false)
  | _ => .error .mismatch

/-- The result of a binary operator. -/
def apply (op : BinaryOp) : Value → Value → Except OpFault Value
  | .int i, .int j => op.onInts i j
  | .float x, .float y => op.onFloats x y
  | .bool b, .bool c => op.onBools b c
  | .untagged, .untagged => op.onUntagged
  | _, _ => .error .mismatch

end BinaryOp

end Abacus
