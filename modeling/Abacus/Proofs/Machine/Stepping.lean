import Abacus.Machine.Run

/-!
# One instruction of a run

`runFrom` walks over the code with a stack.  The lemmas here say what the
instruction at the head of the code makes of the result of the run: it ends the
run, or the run goes on behind it with another stack.  `runFrom_constant`,
`runFrom_effect` and `runFrom_return` are the three forms of an instruction.  From
them there is one lemma for each way in which an instruction can end, and the
proofs about whole runs use these lemmas instead of the definition.
-/

namespace Abacus

namespace Opcode

/-- An instruction is found by its byte. -/
@[simp] theorem ofByte?_byte (op : Opcode) : ofByte? op.byte = some op := by
  cases op with
  | const => rfl
  | truth b => cases b <;> rfl
  | unary op => cases op <;> rfl
  | binary op => cases op <;> rfl
  | ret => rfl

end Opcode

/-! ## Runs -/

section Runs

variable {pool : List Value} {capacity offset : Nat} {s : Stack} {b : UInt8} {rest : Bytes}

/-- A run that reaches the end of the code lacks a return. -/
theorem runFrom_nil :
    (runFrom pool capacity offset s []).result =
      .error ⟨Opcode.ret.byte, offset, .missingReturn⟩ := rfl

theorem runFrom_unknown (hop : Opcode.ofByte? b = none) :
    (runFrom pool capacity offset s (b :: rest)).result =
      .error ⟨b, offset, .unknownOpcode b⟩ := by
  rw [runFrom.eq_def]
  simp [hop, Execution.ended]

theorem runFrom_truncated (hop : Opcode.ofByte? b = some .const) :
    (runFrom pool capacity offset s [b]).result = .error ⟨b, offset, .truncated⟩ := by
  rw [runFrom.eq_def]
  simp [hop, Execution.ended]

/-- Pushing a constant. -/
theorem runFrom_constant {index : UInt8} (hop : Opcode.ofByte? b = some .const) :
    (runFrom pool capacity offset s (b :: index :: rest)).result =
      match pool[index.toNat]? with
      | none => .error ⟨b, offset, .badConstant index.toNat pool.length⟩
      | some v =>
        match s.push capacity v with
        | .error cause => .error ⟨b, offset, cause⟩
        | .ok s => (runFrom pool capacity (offset + 2) s rest).result := by
  rw [runFrom.eq_def]
  simp only [hop]
  cases pool[index.toNat]? with
  | none => rfl
  | some v => cases hpush : s.push capacity v <;> simp only [hpush] <;> rfl

/-- An instruction without an operand. -/
theorem runFrom_effect {op : Opcode} (hop : Opcode.ofByte? b = some op) (hconst : op ≠ .const)
    (hret : op ≠ .ret) :
    (runFrom pool capacity offset s (b :: rest)).result =
      match op.effect capacity s with
      | .error cause => .error ⟨b, offset, cause⟩
      | .ok s => (runFrom pool capacity (offset + 1) s rest).result := by
  rw [runFrom.eq_def]
  cases op with
  | const => contradiction
  | ret => contradiction
  | _ =>
    simp only [hop]
    generalize Opcode.effect capacity s _ = outcome
    cases outcome <;> rfl

/-- Returning the value on top. -/
theorem runFrom_return (hop : Opcode.ofByte? b = some .ret) :
    (runFrom pool capacity offset s (b :: rest)).result =
      match s with
      | [] => .error ⟨b, offset, .stackUnderflow⟩
      | v :: _ => .ok v := by
  rw [runFrom.eq_def]
  simp only [hop]
  cases s <;> rfl

theorem runFrom_badConstant {index : UInt8} (hop : Opcode.ofByte? b = some .const)
    (hindex : pool[index.toNat]? = none) :
    (runFrom pool capacity offset s (b :: index :: rest)).result =
      .error ⟨b, offset, .badConstant index.toNat pool.length⟩ := by
  rw [runFrom_constant hop, hindex]

theorem runFrom_const_full {index : UInt8} {v : Value} (hop : Opcode.ofByte? b = some .const)
    (hindex : pool[index.toNat]? = some v) (hfull : capacity ≤ s.length) :
    (runFrom pool capacity offset s (b :: index :: rest)).result =
      .error ⟨b, offset, .stackOverflow capacity⟩ := by
  rw [runFrom_constant hop, hindex]
  simp only [Stack.push, if_pos hfull]

theorem runFrom_const {index : UInt8} {v : Value} (hop : Opcode.ofByte? b = some .const)
    (hindex : pool[index.toNat]? = some v) (hroom : s.length < capacity) :
    (runFrom pool capacity offset s (b :: index :: rest)).result =
      (runFrom pool capacity (offset + 2) (v :: s) rest).result := by
  have hfull : ¬capacity ≤ s.length := by omega
  rw [runFrom_constant hop, hindex]
  simp only [Stack.push, if_neg hfull]

theorem runFrom_truth_full {v : Bool} (hop : Opcode.ofByte? b = some (.truth v))
    (hfull : capacity ≤ s.length) :
    (runFrom pool capacity offset s (b :: rest)).result =
      .error ⟨b, offset, .stackOverflow capacity⟩ := by
  rw [runFrom_effect hop (by simp) (by simp)]
  simp only [Opcode.effect, Stack.push, if_pos hfull]

theorem runFrom_truth {v : Bool} (hop : Opcode.ofByte? b = some (.truth v))
    (hroom : s.length < capacity) :
    (runFrom pool capacity offset s (b :: rest)).result =
      (runFrom pool capacity (offset + 1) (.bool v :: s) rest).result := by
  have hfull : ¬capacity ≤ s.length := by omega
  rw [runFrom_effect hop (by simp) (by simp)]
  simp only [Opcode.effect, Stack.push, if_neg hfull]

theorem runFrom_unary_underflow {op : UnaryOp} (hop : Opcode.ofByte? b = some (.unary op)) :
    (runFrom pool capacity offset [] (b :: rest)).result =
      .error ⟨b, offset, .stackUnderflow⟩ := by
  rw [runFrom_effect hop (by simp) (by simp)]
  rfl

theorem runFrom_unary_error {op : UnaryOp} {v : Value} {e : OpFault}
    (hop : Opcode.ofByte? b = some (.unary op)) (happly : op.apply v = .error e) :
    (runFrom pool capacity offset (v :: s) (b :: rest)).result =
      .error ⟨b, offset, .ofUnary op v e⟩ := by
  rw [runFrom_effect hop (by simp) (by simp)]
  simp only [Opcode.effect, Stack.unary, happly]

theorem runFrom_unary {op : UnaryOp} {v r : Value}
    (hop : Opcode.ofByte? b = some (.unary op)) (happly : op.apply v = .ok r) :
    (runFrom pool capacity offset (v :: s) (b :: rest)).result =
      (runFrom pool capacity (offset + 1) (r :: s) rest).result := by
  rw [runFrom_effect hop (by simp) (by simp)]
  simp only [Opcode.effect, Stack.unary, happly]

theorem runFrom_binary_underflow {op : BinaryOp} (hop : Opcode.ofByte? b = some (.binary op))
    (hshort : s.length < 2) :
    (runFrom pool capacity offset s (b :: rest)).result =
      .error ⟨b, offset, .stackUnderflow⟩ := by
  rw [runFrom_effect hop (by simp) (by simp)]
  match s, hshort with
  | [], _ => rfl
  | [v], _ => rfl

theorem runFrom_binary_error {op : BinaryOp} {v w : Value} {e : OpFault}
    (hop : Opcode.ofByte? b = some (.binary op)) (happly : op.apply v w = .error e) :
    (runFrom pool capacity offset (w :: v :: s) (b :: rest)).result =
      .error ⟨b, offset, .ofBinary op v w e⟩ := by
  rw [runFrom_effect hop (by simp) (by simp)]
  simp only [Opcode.effect, Stack.binary, happly]

theorem runFrom_binary {op : BinaryOp} {v w r : Value}
    (hop : Opcode.ofByte? b = some (.binary op)) (happly : op.apply v w = .ok r) :
    (runFrom pool capacity offset (w :: v :: s) (b :: rest)).result =
      (runFrom pool capacity (offset + 1) (r :: s) rest).result := by
  rw [runFrom_effect hop (by simp) (by simp)]
  simp only [Opcode.effect, Stack.binary, happly]

end Runs

/-- A machine gives the result of running the chunk on an empty stack. -/
theorem Machine.execute_result (m : Machine) (c : Chunk) :
    (m.execute c).1.result = (runFrom c.constants m.capacity 0 [] c.code).result := rfl

end Abacus
