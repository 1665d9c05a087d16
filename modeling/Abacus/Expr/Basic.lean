import Abacus.Source.Span
import Abacus.Value

/-!
# Expressions

An expression with the source spans of its parts.  The span of an operator
expression covers its operator and operands, without parentheses around it.

`Expr.text` writes an expression with parentheses around every operator
expression.
-/

namespace Abacus

/-- The kinds of leaves. -/
inductive LeafKind where
  | int | float | bool
  /-- A leaf made by hand, with a number that stands for no kind of node. -/
  | unknown (code : UInt8)
  deriving DecidableEq

/-- An expression. -/
inductive Expr where
  | leaf (kind : LeafKind) (value : Value) (span mark : Span)
  | unary (op : UnaryOp) (span mark : Span) (operand : Expr)
  | binary (op : BinaryOp) (span mark : Span) (left right : Expr)
  deriving DecidableEq

namespace Expr

/-- The span of the whole expression. -/
def span : Expr → Span
  | .leaf _ _ span _ => span
  | .unary _ span _ _ => span
  | .binary _ span _ _ _ => span

/-- An integer literal. -/
def ofInt (i : Int32) (span : Span) : Expr :=
  .leaf .int (.int i) span span

/-- A floating-point literal. -/
def ofFloat (x : Binary32) (span : Span) : Expr :=
  .leaf .float (.float x) span span

/-- A truth literal. -/
def ofBool (b : Bool) (span : Span) : Expr :=
  .leaf .bool (.bool b) span span

/-- An operator, at the span `mark`, before its operand. -/
def applied (op : UnaryOp) (mark : Span) (operand : Expr) : Expr :=
  .unary op (mark.cover operand.span) mark operand

/-- An operator, at the span `mark`, between its operands. -/
def joined (op : BinaryOp) (mark : Span) (left right : Expr) : Expr :=
  .binary op (left.span.cover right.span) mark left right

/-- How many leaves and operators the expression has. -/
def size : Expr → Nat
  | .leaf .. => 1
  | .unary _ _ _ e => e.size + 1
  | .binary _ _ _ l r => l.size + r.size + 1

/-- The expression in writing, in front of `tail`. -/
def textOnto : Expr → Bytes → Bytes
  | .leaf _ v _ _, tail => v.text ++ tail
  | .unary op _ _ e, tail => 0x28 :: (op.symbol ++ e.textOnto (0x29 :: tail))
  | .binary op _ _ l r, tail =>
    0x28 :: l.textOnto (0x20 :: (op.symbol ++ 0x20 :: r.textOnto (0x29 :: tail)))

/-- The expression with parentheses around every operator expression. -/
def text (e : Expr) : Bytes :=
  e.textOnto []

end Expr

end Abacus
