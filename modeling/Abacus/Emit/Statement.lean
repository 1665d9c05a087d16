import Abacus.Value

/-!
# Statements

The body of the Go function that an expression becomes.  Every value
that the stack machine would hold becomes a local variable, which is declared
once and never changed.  A local is known by its number.
-/

namespace Abacus

/-- The right-hand side of a declaration. -/
inductive Rhs where
  /-- A constant of the chunk. -/
  | constant (v : Value)
  /-- A truth literal. -/
  | truth (b : Bool)
  | unary (op : UnaryOp) (operand : Nat)
  | binary (op : BinaryOp) (left right : Nat)
  deriving DecidableEq

/-- A statement of the function body. -/
inductive Statement where
  /-- Declares a local. -/
  | declare (slot : Nat) (rhs : Rhs)
  /-- Returns an error when the local, a divisor, is zero. -/
  | guardZero (slot : Nat)
  /-- Reads a local that is not needed any more. -/
  | discard (slot : Nat)
  /-- Returns the local without an error. -/
  | result (slot : Nat)
  deriving DecidableEq

/-- The name of a local. -/
def slotName (slot : Nat) : Bytes :=
  0x73 :: Bytes.ofNat slot

/-- The expression that denotes a constant.  A number that is not finite is
written by its bits, and an untagged constant is false. -/
def Value.expression : Value → Bytes
  | .int i => utf8 "int32(" ++ Bytes.ofInt i.toInt ++ utf8 ")"
  | .float x =>
    if x.isFinite then utf8 "float32(" ++ x.text ++ utf8 ")"
    else utf8 "math.Float32frombits(uint32(0x" ++ Bytes.hexLower 1 x.bits.toNat ++ utf8 "))"
  | .bool b => utf8 (if b then "true" else "false")
  | .untagged => utf8 "false"

/-- Whether the expression of a constant needs the package `math`. -/
def Value.needsMath : Value → Bool
  | .float x => !x.isFinite
  | _ => false

namespace Rhs

/-- The right-hand side in writing. -/
def text : Rhs → Bytes
  | .constant v => v.expression
  | .truth b => utf8 (if b then "true" else "false")
  | .unary op a => op.symbol ++ slotName a
  | .binary op a b => slotName a ++ 0x20 :: op.symbol ++ 0x20 :: slotName b

/-- Whether the right-hand side needs the package `math`. -/
def needsMath : Rhs → Bool
  | .constant v => v.needsMath
  | _ => false

end Rhs

namespace Statement

/-- The lines of a statement inside a function body. -/
def text : Statement → Bytes
  | .declare slot rhs => utf8 "\t" ++ slotName slot ++ utf8 " := " ++ rhs.text ++ utf8 "\n"
  | .guardZero slot =>
    utf8 "\tif " ++ slotName slot ++ utf8 " == 0 \x7b\n" ++
      utf8 "\t\treturn result, errors.New(\"integer division by zero\")\n" ++ utf8 "\t\x7d\n"
  | .discard slot => utf8 "\t_ = " ++ slotName slot ++ utf8 "\n"
  | .result slot => utf8 "\treturn " ++ slotName slot ++ utf8 ", nil\n"

/-- Whether the statement needs the package `math`. -/
def needsMath : Statement → Bool
  | .declare _ rhs => rhs.needsMath
  | _ => false

/-- Whether the statement needs the package `errors`. -/
def needsErrors : Statement → Bool
  | .guardZero _ => true
  | _ => false

end Statement

end Abacus
