import Abacus.Text.Bytes

/-!
# Operators

The unary and binary operators of the expression language.  Each has a symbol
in source text, a name, and a class of operands that it accepts.
-/

namespace Abacus

/-- The operators with one operand. -/
inductive UnaryOp where
  | negate | not
  deriving DecidableEq

/-- The operators with two operands. -/
inductive BinaryOp where
  | add | sub | mul | div
  | greater | less | greaterEqual | lessEqual
  | equal | notEqual
  | and | or
  deriving DecidableEq

/-- The operands that an operator accepts. -/
inductive OperandClass where
  /-- Integers and floating-point numbers. -/
  | numeric
  /-- Values of every kind. -/
  | any
  /-- Truth values. -/
  | boolean
  deriving DecidableEq

/-- The class as it is named in a message. -/
def OperandClass.text : OperandClass → Bytes
  | .numeric => utf8 "int or float"
  | .any => utf8 "int, float or bool"
  | .boolean => utf8 "bool"

namespace UnaryOp

/-- The operator in source text. -/
def symbol : UnaryOp → Bytes
  | .negate => utf8 "-"
  | .not => utf8 "!"

/-- The name of the operator. -/
def name : UnaryOp → Bytes
  | .negate => utf8 "Negate"
  | .not => utf8 "Not"

/-- The operands that the operator accepts. -/
def operands : UnaryOp → OperandClass
  | .negate => .numeric
  | .not => .boolean

end UnaryOp

namespace BinaryOp

/-- The operator in source text. -/
def symbol : BinaryOp → Bytes
  | .add => utf8 "+"
  | .sub => utf8 "-"
  | .mul => utf8 "*"
  | .div => utf8 "/"
  | .greater => utf8 ">"
  | .less => utf8 "<"
  | .greaterEqual => utf8 ">="
  | .lessEqual => utf8 "<="
  | .equal => utf8 "=="
  | .notEqual => utf8 "!="
  | .and => utf8 "&&"
  | .or => utf8 "||"

/-- The name of the operator. -/
def name : BinaryOp → Bytes
  | .add => utf8 "Add"
  | .sub => utf8 "Sub"
  | .mul => utf8 "Mul"
  | .div => utf8 "Div"
  | .greater => utf8 "Greater"
  | .less => utf8 "Less"
  | .greaterEqual => utf8 "GreaterEqual"
  | .lessEqual => utf8 "LessEqual"
  | .equal => utf8 "Equal"
  | .notEqual => utf8 "NotEqual"
  | .and => utf8 "And"
  | .or => utf8 "Or"

/-- The operands that the operator accepts; both must be of one kind. -/
def operands : BinaryOp → OperandClass
  | .add | .sub | .mul | .div => .numeric
  | .greater | .less | .greaterEqual | .lessEqual => .numeric
  | .equal | .notEqual => .any
  | .and | .or => .boolean

/-- Whether the result has the kind of the operands; otherwise it is a truth value. -/
def isArithmetic : BinaryOp → Bool
  | .add | .sub | .mul | .div => true
  | _ => false

/-- Whether the operator compares its operands. -/
def isComparison : BinaryOp → Bool
  | .greater | .less | .greaterEqual | .lessEqual | .equal | .notEqual => true
  | _ => false

end BinaryOp

end Abacus
