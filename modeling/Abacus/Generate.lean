import Abacus.Machine.Chunk
import Abacus.Tree

/-!
# Generating code

The code of an expression pushes its value: first the code of the left operand,
then that of the right one, then the operator's own instruction.  A return
follows the code of the whole expression.  Each operator instruction is recorded
with the span of its expression.
-/

namespace Abacus

/-- Limits on compiling and running.  A number that is not in its range stands
for the default. -/
structure Limits where
  /-- How many constants a chunk may hold, from 1 to 256. -/
  maxConstants : Int := 0
  /-- How many bytes of code a chunk may have; unlimited when not positive. -/
  maxCode : Int := 0
  /-- How many values the stack may hold; the default when not positive. -/
  stackDepth : Int := 0
  deriving DecidableEq

/-- Why an expression cannot be put into a chunk. -/
inductive CapacityFault where
  /-- There is no expression. -/
  | nothing
  /-- The literal here does not fit into the constants. -/
  | constants (full : PoolFull) (span : Span)
  /-- The code is longer than allowed. -/
  | code (length : Nat) (limit : Int) (span : Span)
  deriving DecidableEq

namespace CapacityFault

/-- Where the fault is reported. -/
def spans : CapacityFault → List Span
  | .nothing => []
  | .constants _ s => [s]
  | .code _ _ s => [s]

/-- The fault in words. -/
def message : CapacityFault → Bytes
  | .nothing => utf8 "nothing to compile"
  | .constants full _ =>
    utf8 "too many constants: a chunk holds at most " ++ Bytes.ofNat full.limit
  | .code length limit _ =>
    utf8 "program too large: " ++ Bytes.ofNat length ++ utf8 " bytes of code exceeds the limit of " ++
      Bytes.ofInt limit

end CapacityFault

/-- Appends the code of an expression to a chunk. -/
def Expr.emit : Expr → Chunk → Except CapacityFault Chunk
  | .leaf .bool v _ _, c => .ok (c.emit (.truth v.truth))
  | .leaf _ v span _, c =>
    match c.emitConstant v with
    | .ok c => .ok c
    | .error full => .error (.constants full span)
  | .unary op span _ e, c => do
    let c ← e.emit c
    return (c.emit (.unary op)).addLocation c.code.length span
  | .binary op span _ l r, c => do
    let c ← l.emit c
    let c ← r.emit c
    return (c.emit (.binary op)).addLocation c.code.length span

/-- The chunk of an expression. -/
def Expr.generate (e : Expr) (limits : Limits) : Except CapacityFault Chunk := do
  let c ← e.emit (Chunk.withLimit limits.maxConstants)
  let c := c.emit .ret
  if 0 < limits.maxCode ∧ limits.maxCode < c.code.length then
    throw (.code c.code.length limits.maxCode e.span)
  return c

/-- The chunk of a tree.  A tree whose root leads nowhere has nothing to compile. -/
def Tree.generate (t : Tree) (limits : Limits) : Except CapacityFault Chunk :=
  if t.isEmpty then .error .nothing
  else
    match t.expr? with
    | some e => e.generate limits
    | none => .error .nothing

end Abacus
