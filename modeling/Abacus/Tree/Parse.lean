import Abacus.Expr.Parse
import Abacus.Tree

/-!
# Parsing into a tree

The grammar of `Abacus.Expr.Parse`, read into one array of nodes.  Each function
takes the nodes that are there already, appends those of what it reads, and
passes on the index of the node that stands for it.  An operator is appended
when its operands are there and takes its span from their nodes; parentheses
append nothing.
-/

namespace Abacus

/-- Nodes laid out so far, and the index of the one for what was read last. -/
structure Grown where
  nodes : Array Node
  top : Nat

namespace Grown

/-- The span of the node with the given index.  There is one for every index that
the parser passes on. -/
def spanAt (nodes : Array Node) (id : Nat) : Span :=
  match nodes[id]? with
  | some n => n.span
  | none => ⟨0, 0⟩

/-- Appends a node. -/
def add (nodes : Array Node) (n : Node) : Grown :=
  let nodes := nodes.push n
  ⟨nodes, nodes.size - 1⟩

/-- Appends a leaf. -/
def leaf (nodes : Array Node) (k : LeafKind) (v : Value) (mark : Span) : Grown :=
  add nodes ⟨.leaf k, none, none, v, mark, mark⟩

/-- Appends an operator that stands before its operand. -/
def unary (nodes : Array Node) (op : UnaryOp) (mark : Span) (operand : Nat) : Grown :=
  add nodes
    ⟨.unary op, some operand, none, .untagged, mark.cover (spanAt nodes operand), mark⟩

/-- Appends an operator that stands between its operands. -/
def binary (nodes : Array Node) (op : BinaryOp) (mark : Span) (left right : Nat) : Grown :=
  add nodes
    ⟨.binary op, some left, some right, .untagged,
      (spanAt nodes left).cover (spanAt nodes right), mark⟩

end Grown

namespace TreeParse

open Parse (Input Level)

/-- What a parser gives: the nodes and the tokens behind, or a fault. -/
abbrev Outcome := Except ParseFault (Grown × List Token)

/-- Joins `left` with the operands that follow it, from left to right, for at
most `bound` operators. -/
def chainFrom (level : Level) (operand : Array Node → List Token → Outcome) :
    Nat → Grown → List Token → Outcome
  | 0, left, ts => .ok (left, ts)
  | _ + 1, left, [] => .ok (left, [])
  | bound + 1, left, t :: ts =>
    match level t.kind with
    | none => .ok (left, t :: ts)
    | some op =>
      match operand left.nodes ts with
      | .error f => .error f
      | .ok (right, rest) =>
        chainFrom level operand bound (.binary right.nodes op t.span left.top right.top) rest

/-- Operands of a level with its operators between them. -/
def chain (bound : Nat) (level : Level) (operand : Array Node → List Token → Outcome)
    (nodes : Array Node) (ts : List Token) : Outcome :=
  match operand nodes ts with
  | .error f => .error f
  | .ok (left, rest) => chainFrom level operand bound left rest

/-- A whole expression over the given unary expressions. -/
def expression (bound : Nat) (unary : Array Node → List Token → Outcome) :
    Array Node → List Token → Outcome :=
  chain bound Parse.orLevel <| chain bound Parse.andLevel <| chain bound Parse.equalityLevel <|
    chain bound Parse.comparisonLevel <| chain bound Parse.termLevel <|
      chain bound Parse.factorLevel unary

/-- A literal in front of the tokens. -/
def literal (input : Input) (nodes : Array Node) (ts : List Token) : Outcome :=
  let t := input.next ts
  let text := t.text input.source
  match t.kind with
  | .integer =>
    match readInt32? text with
    | some i => .ok (.leaf nodes .int (.int i) t.span, ts.tail)
    | none => .error (.integerRange t)
  | .float =>
    match readFloat text with
    | .ok x => .ok (.leaf nodes .float (.float x) t.span, ts.tail)
    | .error .malformed => .error (.floatMalformed t)
    | .error .outOfRange => .error (.floatRange t)
  | .word .true => .ok (.leaf nodes .bool (.bool true) t.span, ts.tail)
  | .word .false => .ok (.leaf nodes .bool (.bool false) t.span, ts.tail)
  | _ => .error (.expectedExpression t)

/-- The closing parenthesis of a group that was opened at `opening`. -/
def close (input : Input) (opening : Span) (inner : Grown) (ts : List Token) : Outcome :=
  let t := input.next ts
  if t.kind = .mark .closeParen then .ok (inner, ts.tail) else .error (.unclosed opening t)

/-- A unary or primary expression, with at most `depth` operators and
parentheses around each of its parts. -/
def unary (input : Input) : Nat → Array Node → List Token → Outcome
  | _, nodes, [] => literal input nodes []
  | depth, nodes, t :: ts =>
    match Parse.unaryOp? t.kind with
    | some op =>
      match depth with
      | 0 => .error (.tooDeep t.span)
      | depth + 1 =>
        match unary input depth nodes ts with
        | .error f => .error f
        | .ok (operand, rest) => .ok (.unary operand.nodes op t.span operand.top, rest)
    | none =>
      if t.kind = .mark .openParen then
        match depth with
        | 0 => .error (.tooDeep t.span)
        | depth + 1 =>
          match expression input.bound (unary input depth) nodes ts with
          | .error f => .error f
          | .ok (inner, rest) => close input t.span inner rest
      else literal input nodes (t :: ts)

end TreeParse

/-- The tree that a list of tokens forms. -/
def parseTreeTokens (source : Bytes) (tokens : List Token) : Except ParseFault Tree :=
  let (input, body) := Parse.inputOf source tokens
  match TreeParse.expression input.bound (TreeParse.unary input maxNesting) #[] body with
  | .error f => .error f
  | .ok (grown, []) => .ok ⟨grown.nodes, some grown.top⟩
  | .ok (_, t :: _) => .error (.expectedEnd t)

/-- The tree that a source text forms. -/
def parseTree (source : Bytes) : Except ParseFault Tree :=
  parseTreeTokens source (scan source).tokens

end Abacus
