import Abacus.Source.Span
import Abacus.Value
import Abacus.Machine.Opcode

/-!
# Chunks

A chunk is a compiled expression: code bytes, the constants that the code
refers to, and the source spans of its instructions.  A chunk only grows: each
operation appends, and a constant keeps its index.

The index of a constant is one byte, so a chunk holds at most 256 constants.  A
chunk may be given a smaller limit.
-/

namespace Abacus

/-- The most constants that a one-byte index can reach. -/
def maxConstants : Nat := 256

/-- The source span of the instruction at an offset. -/
structure Location where
  offset : Int
  span : Span
  deriving DecidableEq

/-- A compiled expression. -/
structure Chunk where
  /-- The code; `none` for a chunk that never had any. -/
  code? : Option Bytes
  constants : List Value
  locations : List Location
  /-- How many constants the chunk may hold. -/
  limit : Nat
  limit_pos : 0 < limit
  limit_le : limit ≤ maxConstants
  deriving DecidableEq

/-- The pool of a chunk is full. -/
structure PoolFull where
  limit : Nat
  deriving DecidableEq

/-- The failure in words. -/
def PoolFull.message (f : PoolFull) : Bytes :=
  utf8 "bytecode: constant pool full: limit is " ++ Bytes.ofNat f.limit ++ utf8 " constants"

namespace Chunk

/-- A limit from 1 to 256 counts; any other stands for 256. -/
def effectiveLimit (limit : Int) : Nat :=
  if 1 ≤ limit ∧ limit ≤ 256 then limit.toNat else maxConstants

theorem effectiveLimit_pos (limit : Int) : 0 < effectiveLimit limit := by
  unfold effectiveLimit maxConstants
  split <;> omega

theorem effectiveLimit_le (limit : Int) : effectiveLimit limit ≤ maxConstants := by
  unfold effectiveLimit maxConstants
  split <;> omega

/-- An empty chunk with the given limit on its constants. -/
def withLimit (limit : Int) : Chunk :=
  ⟨some [], [], [], effectiveLimit limit, effectiveLimit_pos limit, effectiveLimit_le limit⟩

/-- An empty chunk. -/
def empty : Chunk :=
  withLimit maxConstants

/-- A chunk in which nothing has been stored, not even empty code. -/
def blank : Chunk :=
  { empty with code? := none }

/-- The code bytes. -/
def code (c : Chunk) : Bytes :=
  c.code?.getD []

/-- Appends a value to the constants and gives its index, if there is room. -/
def addConstant (c : Chunk) (v : Value) : Except PoolFull (UInt8 × Chunk) :=
  if c.limit ≤ c.constants.length then .error ⟨c.limit⟩
  else .ok (UInt8.ofNat c.constants.length, { c with constants := c.constants ++ [v] })

/-- The constant with the given index. -/
def constant? (c : Chunk) (index : Int) : Option Value :=
  if 0 ≤ index then c.constants[index.toNat]? else none

/-- Appends bytes to the code. -/
def emitBytes (c : Chunk) (bytes : Bytes) : Chunk :=
  { c with code? := some (c.code ++ bytes) }

/-- Appends an instruction without an operand. -/
def emit (c : Chunk) (op : Opcode) : Chunk :=
  c.emitBytes [op.byte]

/-- Appends a constant and the instruction that pushes it. -/
def emitConstant (c : Chunk) (v : Value) : Except PoolFull Chunk := do
  let (index, c) ← c.addConstant v
  return c.emitBytes [Opcode.const.byte, index]

/-- Records the source span of the instruction at an offset. -/
def addLocation (c : Chunk) (offset : Int) (span : Span) : Chunk :=
  { c with locations := c.locations ++ [⟨offset, span⟩] }

/-- The span last recorded for the instruction at an offset. -/
def spanAt? (c : Chunk) (offset : Int) : Option Span :=
  (c.locations.reverse.find? fun l => l.offset = offset).map Location.span

end Chunk

end Abacus
