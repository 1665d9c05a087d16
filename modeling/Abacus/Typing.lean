import Abacus.Tree

/-!
# Typing

Every node of a tree has the kind that its value will have.  One sweep over the
nodes finds the kinds, because children come before their parents; a child that
comes later counts as untagged.  The sweep stops at the first operator whose
operands do not fit.
-/

namespace Abacus

/-- Why a tree has no kind. -/
inductive TypeFault where
  /-- There is no expression. -/
  | empty
  /-- The operand of a unary operator does not fit. -/
  | operand (op : UnaryOp) (found : Kind) (span : Span)
  /-- The operands of a binary operator are of different kinds. -/
  | different (op : BinaryOp) (left right : Kind) (leftSpan rightSpan : Span)
  /-- The operands of a binary operator are of one kind, which does not fit. -/
  | operands (op : BinaryOp) (found : Kind) (leftSpan rightSpan : Span)
  deriving DecidableEq

namespace TypeFault

/-- Where the fault is reported. -/
def spans : TypeFault → List Span
  | .empty => []
  | .operand _ _ s => [s]
  | .different _ _ _ s t => [s, t]
  | .operands _ _ s t => [s, t]

/-- The fault in words. -/
def message : TypeFault → Bytes
  | .empty => utf8 "empty expression"
  | .operand op k _ =>
    utf8 "operator '" ++ op.symbol ++ utf8 "' expects " ++ op.operands.text ++ utf8 ", found " ++
      k.name
  | .different op k l _ _ =>
    utf8 "type mismatch: cannot apply '" ++ op.symbol ++ utf8 "' to left operand of type " ++
      k.name ++ utf8 " and right operand of type " ++ l.name
  | .operands op k _ _ =>
    utf8 "operator '" ++ op.symbol ++ utf8 "' expects " ++ op.operands.text ++
      utf8 " operands, found " ++ k.name

end TypeFault

namespace Typing

/-- The kind found for a node; untagged for one that has not been reached. -/
def kindAt (kinds : Array Kind) (id : Option Nat) : Kind :=
  match id with
  | some id => kinds.getD id .untagged
  | none => .untagged

/-- The span of a node. -/
def spanAt (nodes : Array Node) (id : Option Nat) : Span :=
  match id.bind fun id => nodes[id]? with
  | some n => n.span
  | none => ⟨0, 0⟩

/-- The kind of a unary operator's result. -/
def unaryKind (op : UnaryOp) (k : Kind) (s : Span) : Except TypeFault Kind :=
  if op.operands.accepts k then .ok (op.resultKind k) else .error (.operand op k s)

/-- The kind of a binary operator's result. -/
def binaryKind (op : BinaryOp) (k l : Kind) (s t : Span) : Except TypeFault Kind :=
  if k ≠ l then .error (.different op k l s t)
  else if op.operands.accepts k then .ok (op.resultKind k)
  else .error (.operands op k s t)

/-- The kind of a node, given the kinds of the nodes before it. -/
def nodeKind (nodes : Array Node) (kinds : Array Kind) (n : Node) : Except TypeFault Kind :=
  match n.kind with
  | .leaf _ => .ok n.value.kind
  | .unary op => unaryKind op (kindAt kinds n.left) (spanAt nodes n.left)
  | .binary op =>
    binaryKind op (kindAt kinds n.left) (kindAt kinds n.right) (spanAt nodes n.left)
      (spanAt nodes n.right)

/-- Sweeps over the remaining nodes and gives the kinds found, with the fault
that ended the sweep, if one did. -/
def sweep (nodes : Array Node) : List Node → Array Kind → Array Kind × Option TypeFault
  | [], kinds => (kinds, none)
  | n :: rest, kinds =>
    match nodeKind nodes kinds n with
    | .ok k => sweep nodes rest (kinds.push k)
    | .error e => (kinds, some e)

end Typing

/-- The kinds of a tree's nodes up to the first fault, and that fault. -/
structure Typed where
  kinds : Array Kind
  result : Except TypeFault Kind

/-- Finds the kinds of the nodes of a tree, and the kind of its root. -/
def Tree.typing (t : Tree) : Typed :=
  if t.isEmpty then ⟨#[], .error .empty⟩
  else
    match Typing.sweep t.nodes t.nodes.toList #[] with
    | (kinds, some e) => ⟨kinds, .error e⟩
    | (kinds, none) => ⟨kinds, .ok (Typing.kindAt kinds t.root)⟩

/-- The kind of a node, and untagged for one that the sweep did not reach. -/
def Typed.kindOf (t : Typed) (id : Nat) : Kind :=
  t.kinds.getD id .untagged

end Abacus
