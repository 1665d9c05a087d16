import Abacus.Generate
import Abacus.Proofs.Arena
import Abacus.Proofs.Failing

/-!
# The code of an expression

What generating code appends to a chunk, without the chunk: the bytes
(`Expr.code`), the constants (`Expr.literals`) and the recorded spans
(`Expr.locations`).  `Expr.Appends` says that a chunk is another one with these
appended, and `appends_of_emit` that a successful generation does just that.
`Generated` puts this together for a whole chunk.
-/

namespace Abacus

namespace Expr

/-- The constants of an expression, from left to right. -/
def literals : Expr → List Value
  | .leaf .bool _ _ _ => []
  | .leaf _ v _ _ => [v]
  | .unary _ _ _ e => e.literals
  | .binary _ _ _ l r => l.literals ++ r.literals

/-- The instruction that an expression's own node becomes. -/
def opcode : Expr → Opcode
  | .leaf .bool v _ _ => .truth v.truth
  | .leaf _ _ _ _ => .const
  | .unary op _ _ _ => .unary op
  | .binary op _ _ _ _ => .binary op

/-- The code of an expression whose first constant has the index `first`. -/
def code : Nat → Expr → Bytes
  | _, .leaf .bool v _ _ => [(Opcode.truth v.truth).byte]
  | first, .leaf _ _ _ _ => [Opcode.const.byte, UInt8.ofNat first]
  | first, .unary op _ _ e => e.code first ++ [(Opcode.unary op).byte]
  | first, .binary op _ _ l r =>
    l.code first ++ r.code (first + l.literals.length) ++ [(Opcode.binary op).byte]

/-- How many bytes of code an expression has. -/
def codeSize : Expr → Nat
  | .leaf .bool _ _ _ => 1
  | .leaf _ _ _ _ => 2
  | .unary _ _ _ e => e.codeSize + 1
  | .binary _ _ _ l r => l.codeSize + r.codeSize + 1

/-- The spans that are recorded for code that starts at the offset `start`. -/
def locations : Nat → Expr → List Location
  | _, .leaf _ _ _ _ => []
  | start, .unary _ span _ e => e.locations start ++ [⟨(start + e.codeSize : Nat), span⟩]
  | start, .binary _ span _ l r =>
    l.locations start ++ r.locations (start + l.codeSize) ++
      [⟨(start + l.codeSize + r.codeSize : Nat), span⟩]

@[simp] theorem length_code (first : Nat) (e : Expr) : (e.code first).length = e.codeSize := by
  induction e generalizing first with
  | leaf k => cases k <;> rfl
  | unary op span mark e ih => simp [code, codeSize, ih]
  | binary op span mark l r ihl ihr => simp [code, codeSize, ihl, ihr, Nat.add_assoc]

/-! A leaf of any kind but the truth values is a constant of the chunk. -/

section Constants

variable {k : LeafKind} (hk : k ≠ .bool) (v : Value) (span mark : Span)

include hk

theorem literals_constant : literals (.leaf k v span mark) = [v] := by
  cases k <;> first | rfl | contradiction

theorem code_constant (first : Nat) :
    code first (.leaf k v span mark) = [Opcode.const.byte, UInt8.ofNat first] := by
  cases k <;> first | rfl | contradiction

theorem codeSize_constant : codeSize (.leaf k v span mark) = 2 := by
  cases k <;> first | rfl | contradiction

theorem opcode_constant : opcode (.leaf k v span mark) = .const := by
  cases k <;> first | rfl | contradiction

theorem emit_constant (c : Chunk) :
    emit (.leaf k v span mark) c =
      match c.emitConstant v with
      | .ok c => .ok c
      | .error full => .error (.constants full span) := by
  cases k <;> first | rfl | contradiction

end Constants

/-- One chunk is another with the code, the constants and the spans of an
expression appended. -/
structure Appends (e : Expr) (c c' : Chunk) : Prop where
  code : c'.code = c.code ++ e.code c.constants.length
  constants : c'.constants = c.constants ++ e.literals
  locations : c'.locations = c.locations ++ e.locations c.code.length
  limit : c'.limit = c.limit
  /-- The constants stay within the limit. -/
  within : c.constants.length ≤ c.limit → c'.constants.length ≤ c.limit

end Expr

/-! ## Chunks -/

namespace Chunk

variable (c : Chunk) (op : Opcode) (offset : Int) (span : Span)

@[simp] theorem code_emit : (c.emit op).code = c.code ++ [op.byte] := rfl

@[simp] theorem constants_emit : (c.emit op).constants = c.constants := rfl

@[simp] theorem locations_emit : (c.emit op).locations = c.locations := rfl

@[simp] theorem limit_emit : (c.emit op).limit = c.limit := rfl

@[simp] theorem code_addLocation : (c.addLocation offset span).code = c.code := rfl

@[simp] theorem constants_addLocation : (c.addLocation offset span).constants = c.constants := rfl

@[simp] theorem locations_addLocation :
    (c.addLocation offset span).locations = c.locations ++ [⟨offset, span⟩] := rfl

@[simp] theorem limit_addLocation : (c.addLocation offset span).limit = c.limit := rfl

/-- A constant that fits is appended with the instruction that pushes it. -/
theorem emitConstant_ok {c c' : Chunk} {v : Value} (h : c.emitConstant v = .ok c') :
    c.constants.length < c.limit ∧
      c' = { c with
        constants := c.constants ++ [v]
        code? := some (c.code ++ [Opcode.const.byte, UInt8.ofNat c.constants.length]) } := by
  rw [emitConstant, bind_eq_ok_iff] at h
  obtain ⟨⟨index, c₁⟩, hadd, h⟩ := h
  unfold addConstant at hadd
  split at hadd
  · contradiction
  · next hfull =>
    cases hadd
    cases h
    exact ⟨by omega, rfl⟩

end Chunk

namespace Expr

/-- Generating code appends it. -/
theorem appends_of_emit {e : Expr} {c c' : Chunk} (h : e.emit c = .ok c') : e.Appends c c' := by
  induction e generalizing c c' with
  | leaf k v span mark =>
    by_cases hk : k = .bool
    · subst hk
      cases h
      exact ⟨rfl, by simp [literals], by simp [locations], rfl, fun hc => hc⟩
    · rw [emit_constant hk] at h
      split at h
      · rename_i hconstant
        cases h
        obtain ⟨hroom, rfl⟩ := Chunk.emitConstant_ok hconstant
        refine ⟨?_, ?_, by simp [locations], rfl, fun _ => by simp; omega⟩
        · rw [code_constant hk]
          rfl
        · rw [literals_constant hk]
      · cases h
  | unary op span mark e ih =>
    rw [emit, bind_eq_ok_iff] at h
    obtain ⟨c₁, hoperand, h⟩ := h
    cases h
    obtain ⟨hcode, hconstants, hlocations, hlimit, hwithin⟩ := ih hoperand
    refine ⟨?_, hconstants, ?_, hlimit, hwithin⟩
    · simp [code, hcode]
    · simp [locations, hlocations, hcode]
  | binary op span mark l r ihl ihr =>
    rw [emit, bind_eq_ok_iff] at h
    obtain ⟨c₁, hleft, h⟩ := h
    rw [bind_eq_ok_iff] at h
    obtain ⟨c₂, hright, h⟩ := h
    cases h
    obtain ⟨hcode₁, hconstants₁, hlocations₁, hlimit₁, hwithin₁⟩ := ihl hleft
    obtain ⟨hcode₂, hconstants₂, hlocations₂, hlimit₂, hwithin₂⟩ := ihr hright
    refine ⟨?_, ?_, ?_, ?_, ?_⟩
    · simp [code, hcode₂, hcode₁, hconstants₁]
    · simp [literals, hconstants₂, hconstants₁]
    · simp [locations, hlocations₂, hlocations₁, hcode₂, hcode₁, Nat.add_assoc]
    · simp [hlimit₂, hlimit₁]
    · intro hc
      rw [hlimit₁] at hwithin₂
      simpa using hwithin₂ (hwithin₁ hc)

/-- What a chunk holds that was generated for an expression. -/
structure Generated (e : Expr) (c : Chunk) : Prop where
  code : c.code = e.code 0 ++ [Opcode.ret.byte]
  constants : c.constants = e.literals
  locations : c.locations = e.locations 0
  /-- Every constant has an index of one byte. -/
  indexed : e.literals.length ≤ maxConstants

theorem generated_of_generate {e : Expr} {limits : Limits} {c : Chunk}
    (h : e.generate limits = .ok c) : e.Generated c := by
  rw [generate, bind_eq_ok_iff] at h
  obtain ⟨c₁, hemit, h⟩ := h
  obtain ⟨hcode, hconstants, hlocations, hlimit, hwithin⟩ := appends_of_emit hemit
  have hc : c = c₁.emit .ret := by
    simp only at h
    split at h
    · contradiction
    · cases h
      rfl
  subst hc
  have hcount := hwithin (Nat.zero_le _)
  rw [hconstants] at hcount
  refine ⟨?_, ?_, ?_, ?_⟩
  · rw [Chunk.code_emit, hcode]
    rfl
  · rw [Chunk.constants_emit, hconstants]
    rfl
  · rw [Chunk.locations_emit, hlocations]
    rfl
  · exact Nat.le_trans hcount (Chunk.effectiveLimit_le limits.maxConstants)

end Expr

/-! ## Recorded spans -/

/-- The last span of a list that is recorded for an offset. -/
def lastSpan? (xs : List Location) (offset : Int) : Option Span :=
  (xs.reverse.find? fun x => x.offset = offset).map Location.span

theorem lastSpan?_append (xs ys : List Location) (offset : Int) :
    lastSpan? (xs ++ ys) offset = (lastSpan? ys offset).or (lastSpan? xs offset) := by
  simp [lastSpan?, List.find?_append, Option.map_or]

theorem lastSpan?_singleton (x : Location) (offset : Int) :
    lastSpan? [x] offset = if x.offset = offset then some x.span else none := by
  by_cases h : x.offset = offset <;> simp [lastSpan?, h]

/-! ## The places of nodes -/

/-- An operand of an operator; the only one of a unary operator is the left one. -/
inductive Side where
  | left | right
  deriving DecidableEq

/-- The way from an expression down to one of its nodes. -/
abbrev NodePath := List Side

namespace Expr

/-- The node at the end of a path. -/
def node? : Expr → NodePath → Option Expr
  | e, [] => some e
  | .unary _ _ _ e, .left :: path => e.node? path
  | .binary _ _ _ l _, .left :: path => l.node? path
  | .binary _ _ _ _ r, .right :: path => r.node? path
  | _, _ :: _ => none

/-- The offset, in the code of an expression, of the instruction of the node at
the end of a path.  The instruction of a node stands behind the code of its
operands. -/
def offsetOf : Expr → NodePath → Nat
  | .unary _ _ _ e, [] => e.codeSize
  | .binary _ _ _ l r, [] => l.codeSize + r.codeSize
  | .unary _ _ _ e, .left :: path => e.offsetOf path
  | .binary _ _ _ l _, .left :: path => l.offsetOf path
  | .binary _ _ _ l r, .right :: path => l.codeSize + r.offsetOf path
  | _, _ => 0

/-- Whether an expression is a leaf. -/
def isLeaf : Expr → Bool
  | .leaf .. => true
  | _ => false

/-- The instruction of a node stands at its offset. -/
theorem code_offsetOf {e n : Expr} {path : NodePath} (h : e.node? path = some n) (first : Nat)
    (rest : Bytes) : (e.code first ++ rest)[e.offsetOf path]? = some n.opcode.byte := by
  induction e generalizing path first rest with
  | leaf k v span mark =>
    cases path with
    | nil =>
      cases h
      cases k <;> rfl
    | cons side path => simp [node?] at h
  | unary op span mark e ih =>
    match path with
    | [] =>
      cases h
      simp [code, offsetOf, opcode]
    | .left :: path =>
      rw [code, List.append_assoc]
      exact ih h _ _
    | .right :: path => cases h
  | binary op span mark l r ihl ihr =>
    match path with
    | [] =>
      cases h
      rw [code, offsetOf, List.append_assoc, List.append_assoc,
        List.getElem?_append_right (by simp), List.getElem?_append_right (by simp)]
      simp [opcode]
    | .left :: path =>
      rw [code, List.append_assoc, List.append_assoc]
      exact ihl h _ _
    | .right :: path =>
      rw [code, offsetOf, List.append_assoc, List.append_assoc,
        List.getElem?_append_right (by simp)]
      simpa using ihr h _ _

/-- Spans are recorded only for offsets inside the code of the expression. -/
theorem offset_mem_locations {e : Expr} {start : Nat} {x : Location} (h : x ∈ e.locations start) :
    (start : Int) ≤ x.offset ∧ x.offset < (start + e.codeSize : Nat) := by
  induction e generalizing start with
  | leaf => cases h
  | unary op span mark e ih =>
    simp only [locations, List.mem_append, List.mem_singleton] at h
    simp only [codeSize]
    rcases h with h | rfl
    · have := ih h
      omega
    · simp only
      omega
  | binary op span mark l r ihl ihr =>
    simp only [locations, List.mem_append, List.mem_singleton] at h
    simp only [codeSize]
    rcases h with (h | h) | rfl
    · have := ihl h
      omega
    · have := ihr h
      omega
    · simp only
      omega

theorem offsetOf_lt {e n : Expr} {path : NodePath} (h : e.node? path = some n) :
    e.offsetOf path < e.codeSize := by
  have hget := code_offsetOf h 0 []
  rw [List.append_nil] at hget
  have hlt := (List.getElem?_eq_some_iff.mp hget).1
  simpa using hlt

/-- No span is recorded for an offset outside the code. -/
theorem lastSpan?_eq_none {e : Expr} {start : Nat} {offset : Int}
    (h : offset < start ∨ (start + e.codeSize : Nat) ≤ offset) :
    lastSpan? (e.locations start) offset = none := by
  simp only [lastSpan?, Option.map_eq_none_iff, List.find?_eq_none, List.mem_reverse,
    decide_eq_true_eq]
  intro x hx hoffset
  have := offset_mem_locations hx
  omega

/-- The span recorded for an operator is its own. -/
theorem lastSpan?_offsetOf {e n : Expr} {path : NodePath} (h : e.node? path = some n)
    (hop : n.isLeaf = false) (start : Nat) :
    lastSpan? (e.locations start) (start + e.offsetOf path : Nat) = some n.span := by
  induction e generalizing path start with
  | leaf k v span mark =>
    cases path with
    | nil => cases h; cases hop
    | cons side path => simp [node?] at h
  | unary op span mark e ih =>
    rw [locations, lastSpan?_append, lastSpan?_singleton]
    match path with
    | [] =>
      cases h
      simp [offsetOf, Expr.span]
    | .left :: path =>
      have hlt : e.offsetOf path < e.codeSize := offsetOf_lt h
      rw [offsetOf, if_neg (by simp only; omega), Option.none_or]
      exact ih h start
    | .right :: path => cases h
  | binary op span mark l r ihl ihr =>
    rw [locations, lastSpan?_append, lastSpan?_append, lastSpan?_singleton]
    match path with
    | [] =>
      cases h
      simp [offsetOf, Expr.span, Nat.add_assoc]
    | .left :: path =>
      have hlt : l.offsetOf path < l.codeSize := offsetOf_lt h
      rw [offsetOf, if_neg (by simp only; omega), Option.none_or,
        lastSpan?_eq_none (.inl (by omega)), Option.none_or]
      exact ihl h start
    | .right :: path =>
      have hlt : r.offsetOf path < r.codeSize := offsetOf_lt h
      rw [offsetOf, if_neg (by simp only; omega), Option.none_or, ← Nat.add_assoc,
        ihr h (start + l.codeSize), Option.some_or]

end Expr

end Abacus
