import Abacus.Expr.Basic
import Abacus.Number.Literal
import Abacus.Token.Scan

/-!
# Parsing

Six levels of binary operators, each grouping to the left, stand above the
unary operators and the primary expressions:

    or         := and ('||' and)*
    and        := equality ('&&' equality)*
    equality   := comparison (('==' | '!=') comparison)*
    comparison := term (('>' | '<' | '>=' | '<=') term)*
    term       := factor (('+' | '-') factor)*
    factor     := unary (('*' | '/') unary)*
    unary      := ('-' | '!') unary | primary
    primary    := integer | float | 'true' | 'false' | '(' or ')'

Unary operators and parentheses may nest at most `maxNesting` deep.  `unary`
recurses on the nesting that is left, and each level loops over its operators;
the loop is bounded by the number of tokens.

The result is an expression; `Abacus.Tree.Parse` reads the same grammar into the
nodes of a tree.
-/

namespace Abacus

/-- How deep unary operators and parentheses may nest together. -/
def maxNesting : Nat := 1000

/-- Why tokens form no expression. -/
inductive ParseFault where
  /-- An operand was expected where this token stands. -/
  | expectedExpression (found : Token)
  /-- The expression is complete, and this token follows it. -/
  | expectedEnd (found : Token)
  /-- The parenthesis at `opening` is not closed where this token stands. -/
  | unclosed (opening : Span) (found : Token)
  | integerRange (literal : Token)
  | floatMalformed (literal : Token)
  | floatRange (literal : Token)
  /-- The operator or parenthesis here nests too deep. -/
  | tooDeep (place : Span)
  deriving DecidableEq

namespace ParseFault

/-- Where the fault is reported. -/
def span : ParseFault → Span
  | .expectedExpression t => t.span
  | .expectedEnd t => t.span
  | .unclosed opening _ => opening
  | .integerRange t => t.span
  | .floatMalformed t => t.span
  | .floatRange t => t.span
  | .tooDeep place => place

/-- The fault in words. -/
def message (source : Bytes) : ParseFault → Bytes
  | .expectedExpression t => utf8 "expected expression, found " ++ t.describe source
  | .expectedEnd t => utf8 "expected end of expression, found " ++ t.describe source
  | .unclosed _ t => utf8 "expected ')' to close this '(', found " ++ t.describe source
  | .integerRange t => utf8 "integer literal out of range: " ++ t.text source
  | .floatMalformed t => utf8 "malformed float literal: " ++ t.text source
  | .floatRange t => utf8 "float literal out of range: " ++ t.text source
  | .tooDeep _ =>
    utf8 "expression nested too deeply (limit " ++ Bytes.ofNat maxNesting ++ utf8 ")"

end ParseFault

namespace Parse

/-- What a parser gives: a result and the tokens behind it, or a fault. -/
abbrev Outcome := Except ParseFault (Expr × List Token)

/-- The tokens that a parser reads, with the token that ends them. -/
structure Input where
  source : Bytes
  /-- The token at which the input ends. -/
  final : Token
  /-- An upper bound on the number of tokens. -/
  bound : Nat

namespace Input

/-- The token in front of `ts`; behind the last one stands the end of the input. -/
def next (input : Input) (ts : List Token) : Token :=
  ts.headD input.final

end Input

/-! ## Operators of each level -/

/-- The operators of a level. -/
abbrev Level := TokenKind → Option BinaryOp

/-- The operator of disjunction. -/
def orLevel : Level
  | .mark .pipePipe => some .or
  | _ => none

/-- The operator of conjunction. -/
def andLevel : Level
  | .mark .ampAmp => some .and
  | _ => none

/-- The operators of equality. -/
def equalityLevel : Level
  | .mark .equalEqual => some .equal
  | .mark .bangEqual => some .notEqual
  | _ => none

/-- The operators of order. -/
def comparisonLevel : Level
  | .mark .greater => some .greater
  | .mark .less => some .less
  | .mark .greaterEqual => some .greaterEqual
  | .mark .lessEqual => some .lessEqual
  | _ => none

/-- The operators of sums. -/
def termLevel : Level
  | .mark .plus => some .add
  | .mark .minus => some .sub
  | _ => none

/-- The operators of products. -/
def factorLevel : Level
  | .mark .star => some .mul
  | .mark .slash => some .div
  | _ => none

/-- The operators that stand before their operand. -/
def unaryOp? : TokenKind → Option UnaryOp
  | .mark .minus => some .negate
  | .mark .bang => some .not
  | _ => none

/-! ## The levels -/

/-- Joins `left` with the operands that follow it, from left to right, for at
most `bound` operators. -/
def chainFrom (level : Level) (operand : List Token → Outcome) :
    Nat → Expr → List Token → Outcome
  | 0, left, ts => .ok (left, ts)
  | _ + 1, left, [] => .ok (left, [])
  | bound + 1, left, t :: ts =>
    match level t.kind with
    | none => .ok (left, t :: ts)
    | some op =>
      match operand ts with
      | .error e => .error e
      | .ok (right, rest) => chainFrom level operand bound (.joined op t.span left right) rest

/-- Operands of a level with its operators between them. -/
def chain (bound : Nat) (level : Level) (operand : List Token → Outcome) (ts : List Token) :
    Outcome :=
  match operand ts with
  | .error e => .error e
  | .ok (left, rest) => chainFrom level operand bound left rest

/-- A whole expression over the given unary expressions. -/
def expression (bound : Nat) (unary : List Token → Outcome) : List Token → Outcome :=
  chain bound orLevel <| chain bound andLevel <| chain bound equalityLevel <|
    chain bound comparisonLevel <| chain bound termLevel <| chain bound factorLevel unary

/-- A literal in front of the tokens. -/
def literal (input : Input) (ts : List Token) : Outcome :=
  let t := input.next ts
  let text := t.text input.source
  match t.kind with
  | .integer =>
    match readInt32? text with
    | some i => .ok (.ofInt i t.span, ts.tail)
    | none => .error (.integerRange t)
  | .float =>
    match readFloat text with
    | .ok x => .ok (.ofFloat x t.span, ts.tail)
    | .error .malformed => .error (.floatMalformed t)
    | .error .outOfRange => .error (.floatRange t)
  | .word .true => .ok (.ofBool true t.span, ts.tail)
  | .word .false => .ok (.ofBool false t.span, ts.tail)
  | _ => .error (.expectedExpression t)

/-- The closing parenthesis of a group that was opened at `opening`. -/
def close (input : Input) (opening : Span) (inner : Expr) (ts : List Token) : Outcome :=
  let t := input.next ts
  if t.kind = .mark .closeParen then .ok (inner, ts.tail) else .error (.unclosed opening t)

/-- A unary or primary expression, with at most `depth` operators and
parentheses around each of its parts. -/
def unary (input : Input) : Nat → List Token → Outcome
  | _, [] => literal input []
  | depth, t :: ts =>
    match unaryOp? t.kind with
    | some op =>
      match depth with
      | 0 => .error (.tooDeep t.span)
      | depth + 1 =>
        match unary input depth ts with
        | .error e => .error e
        | .ok (operand, rest) => .ok (.applied op t.span operand, rest)
    | none =>
      if t.kind = .mark .openParen then
        match depth with
        | 0 => .error (.tooDeep t.span)
        | depth + 1 =>
          match expression input.bound (unary input depth) ts with
          | .error e => .error e
          | .ok (inner, rest) => close input t.span inner rest
      else literal input (t :: ts)

/-- The tokens before the first end of the input, and the token that ends them.
An end is added at the end of the source when the last token is none. -/
def inputOf (source : Bytes) (tokens : List Token) : Input × List Token :=
  let ended :=
    if (tokens.getLast?.map Token.kind) = some .endOfInput then tokens
    else tokens ++ [endToken source]
  let body := ended.takeWhile fun t => t.kind ≠ .endOfInput
  let final := (ended.drop body.length).headD (endToken source)
  (⟨source, final, body.length⟩, body)

end Parse

/-- The expression that a list of tokens forms. -/
def parseTokens (source : Bytes) (tokens : List Token) : Except ParseFault Expr :=
  let (input, body) := Parse.inputOf source tokens
  match Parse.expression input.bound (Parse.unary input maxNesting) body with
  | .error e => .error e
  | .ok (e, []) => .ok e
  | .ok (_, t :: _) => .error (.expectedEnd t)

/-- The expression that a source text forms. -/
def parse (source : Bytes) : Except ParseFault Expr :=
  parseTokens source (scan source).tokens

end Abacus
