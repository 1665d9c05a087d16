import Abacus.Expr.Basic
import Abacus.Machine.Opcode

/-!
# Trees

A tree keeps an expression in one array of nodes that refer to each other by
index.  `Tree.ofExpr` puts every node behind its children, so the root comes
last, as parsing a text does (`Abacus.Tree.Parse`); a tree made by hand may be in
any order.  `Tree.expr?` reads the expression back from the root.
-/

namespace Abacus

/-- The kind of a node. -/
inductive NodeKind where
  | leaf (k : LeafKind)
  | unary (op : UnaryOp)
  | binary (op : BinaryOp)
  deriving DecidableEq

namespace NodeKind

/-- The kinds in the order of their numbers. -/
def all : List NodeKind :=
  [.leaf .int, .leaf .float, .leaf .bool, .unary .negate, .unary .not,
   .binary .add, .binary .sub, .binary .mul, .binary .div,
   .binary .greater, .binary .less, .binary .greaterEqual, .binary .lessEqual,
   .binary .equal, .binary .notEqual, .binary .and, .binary .or]

/-- The kind with the given number. -/
def ofCode (n : UInt8) : NodeKind :=
  all.getD n.toNat (.leaf (.unknown n))

/-- The name of a kind. -/
def name : NodeKind → Bytes
  | .leaf .int => utf8 "Int"
  | .leaf .float => utf8 "Float"
  | .leaf .bool => utf8 "Bool"
  | .leaf (.unknown n) => utf8 "NodeKind(" ++ Bytes.ofNat n.toNat ++ utf8 ")"
  | .unary op => op.name
  | .binary op => op.name

/-- The operator in source text; empty for a leaf. -/
def symbol : NodeKind → Bytes
  | .leaf _ => []
  | .unary op => op.symbol
  | .binary op => op.symbol

/-- How many children a node of the kind has. -/
def arity : NodeKind → Nat
  | .leaf _ => 0
  | .unary _ => 1
  | .binary _ => 2

/-- The instruction that stands for the kind, if there is one. -/
def opcode? : NodeKind → Option Opcode
  | .leaf .int | .leaf .float => some .const
  | .leaf .bool => some (.truth true)
  | .leaf (.unknown _) => none
  | .unary op => some (.unary op)
  | .binary op => some (.binary op)

end NodeKind

/-- A node of a tree. -/
structure Node where
  kind : NodeKind
  left : Option Nat
  right : Option Nat
  value : Value
  span : Span
  /-- The span of the operator, or of the leaf. -/
  mark : Span
  deriving DecidableEq

/-- An expression as an array of nodes. -/
structure Tree where
  nodes : Array Node
  root : Option Nat
  deriving DecidableEq

/-- Appends the nodes of an expression, children first. -/
def Expr.appendNodes : Expr → Array Node → Array Node
  | .leaf k v span mark, nodes => nodes.push ⟨.leaf k, none, none, v, span, mark⟩
  | .unary op span mark e, nodes =>
    let nodes := e.appendNodes nodes
    nodes.push ⟨.unary op, some (nodes.size - 1), none, .untagged, span, mark⟩
  | .binary op span mark l r, nodes =>
    let leftNodes := l.appendNodes nodes
    let nodes := r.appendNodes leftNodes
    nodes.push
      ⟨.binary op, some (leftNodes.size - 1), some (nodes.size - 1), .untagged, span, mark⟩

namespace Tree

/-- The tree of an expression. -/
def ofExpr (e : Expr) : Tree :=
  let nodes := e.appendNodes #[]
  ⟨nodes, some (nodes.size - 1)⟩

/-- Reads the expression below a node, at most `depth` nodes deep. -/
def exprAt? (nodes : Array Node) : Nat → Nat → Option Expr
  | 0, _ => none
  | depth + 1, id => do
    let n ← nodes[id]?
    match n.kind with
    | .leaf k => some (.leaf k n.value n.span n.mark)
    | .unary op => do
      let e ← exprAt? nodes depth (← n.left)
      return .unary op n.span n.mark e
    | .binary op => do
      let l ← exprAt? nodes depth (← n.left)
      let r ← exprAt? nodes depth (← n.right)
      return .binary op n.span n.mark l r

/-- The expression at the root.  A tree without cycles has no path longer than
its number of nodes. -/
def expr? (t : Tree) : Option Expr := do
  exprAt? t.nodes t.nodes.size (← t.root)

/-- Whether the tree holds no expression. -/
def isEmpty (t : Tree) : Bool :=
  t.nodes.isEmpty || t.root.isNone

/-- The expression in writing; empty when there are no nodes, and `none` when
the root leads nowhere. -/
def text? (t : Tree) : Option Bytes :=
  if t.nodes.isEmpty then some [] else t.expr?.map Expr.text

/-- The smallest node whose span holds the offset; of equal ones the first. -/
def innermost? (t : Tree) (offset : Int) : Option Nat :=
  let hits := (List.range t.nodes.size).filterMap fun id =>
    match t.nodes[id]? with
    | some n => if n.span.contains offset then some (id, n.span.length) else none
    | none => none
  hits.foldl (fun best hit =>
    match best with
    | none => some hit
    | some b => if hit.2 < b.2 then some hit else best) none |>.map Prod.fst

end Tree

end Abacus
