import Abacus.Proofs.Machine.Slots
import Mathlib.Data.List.Basic

/-!
# The machine is safe on all code

Whatever bytes and constants a chunk holds, the machine keeps its stack within the
slots and reads the code within its bytes, changes both as the table of
instructions says, and ends after at most as many instructions as the code has
bytes.  It ends with a value or with a fault that names its instruction.

`lawful_turn` says all that one turn can do in a state that models a stack.  What
holds of every state of a run, and of the run as a whole, follows from it.
-/

namespace Abacus

/-! ## The table of instructions -/

namespace Stack

variable {capacity : Nat} {v : Value} {s s' : Stack}

theorem length_of_push (h : s.push capacity v = .ok s') : s'.length = s.length + 1 := by
  unfold push at h
  split at h
  · cases h
  · cases h
    rfl

theorem cause_of_push {cause : FaultCause} (h : s.push capacity v = .error cause) :
    cause = .stackOverflow capacity := by
  unfold push at h
  split at h
  · cases h
    rfl
  · cases h

end Stack

namespace Opcode

theorem byte_of_ofByte? {b : UInt8} {op : Opcode} (h : ofByte? b = some op) : op.byte = b := by
  simpa using List.find?_some h

theorem byte_ne_of_ofByte? {b : UInt8} (h : ofByte? b = none) (op : Opcode) : op.byte ≠ b := by
  rintro rfl
  rw [ofByte?_byte] at h
  cases h

variable {op : Opcode} {capacity : Nat} {s s' : Stack}

theorem length_eq_one (hconst : op ≠ .const) : op.length = 1 := by
  cases op <;> first | rfl | contradiction

/-- The table tells how the stack grows or shrinks. -/
theorem length_of_effect (hconst : op ≠ .const) (hret : op ≠ .ret)
    (h : op.effect capacity s = .ok s') : s'.length + op.pops = s.length + op.pushes := by
  cases op with
  | const => contradiction
  | truth b => exact Stack.length_of_push h
  | unary op =>
    simp only [effect, Stack.unary] at h
    split at h
    · split at h <;> cases h
      rfl
    · cases h
  | binary op =>
    simp only [effect, Stack.binary] at h
    split at h
    · split at h <;> cases h
      rfl
    · cases h
  | ret => contradiction

end Opcode

/-! ## Runs with their instructions -/

/-- The run that begins with an instruction: it ends there, or goes on with the
stack that the instruction leaves. -/
def Execution.ofOutcome (t : TraceEntry) (next : Stack → Execution) :
    Except FaultCause Stack → Execution
  | .error cause => .ended t (.error ⟨t.op, t.offset, cause⟩)
  | .ok s => .after t (next s)

section Runs

variable {pool : List Value} {capacity offset : Nat} {s : Stack} {b : UInt8} {rest : Bytes}

theorem runFrom_eq_unknown (hop : Opcode.ofByte? b = none) :
    runFrom pool capacity offset s (b :: rest) =
      .ended ⟨offset, b, s.length⟩ (.error ⟨b, offset, .unknownOpcode b⟩) := by
  rw [runFrom.eq_def]
  simp only [hop]

theorem runFrom_eq_truncated (hop : Opcode.ofByte? b = some .const) :
    runFrom pool capacity offset s [b] =
      .ended ⟨offset, b, s.length⟩ (.error ⟨b, offset, .truncated⟩) := by
  rw [runFrom.eq_def]
  simp only [hop]

theorem runFrom_eq_constant {index : UInt8} (hop : Opcode.ofByte? b = some .const) :
    runFrom pool capacity offset s (b :: index :: rest) =
      match pool[index.toNat]? with
      | none =>
        .ended ⟨offset, b, s.length⟩ (.error ⟨b, offset, .badConstant index.toNat pool.length⟩)
      | some v =>
        .ofOutcome ⟨offset, b, s.length⟩ (fun s' => runFrom pool capacity (offset + 2) s' rest)
          (s.push capacity v) := by
  rw [runFrom.eq_def]
  simp only [hop]
  cases pool[index.toNat]? with
  | none => rfl
  | some v => cases hpush : s.push capacity v <;> simp only [hpush] <;> rfl

theorem runFrom_eq_effect {op : Opcode} (hop : Opcode.ofByte? b = some op) (hconst : op ≠ .const)
    (hret : op ≠ .ret) :
    runFrom pool capacity offset s (b :: rest) =
      .ofOutcome ⟨offset, b, s.length⟩ (fun s' => runFrom pool capacity (offset + 1) s' rest)
        (op.effect capacity s) := by
  rw [runFrom.eq_def]
  cases op with
  | const => contradiction
  | ret => contradiction
  | _ =>
    simp only [hop]
    generalize Opcode.effect capacity s _ = outcome
    cases outcome <;> rfl

theorem runFrom_eq_return (hop : Opcode.ofByte? b = some .ret) :
    runFrom pool capacity offset s (b :: rest) =
      match s with
      | [] => .ended ⟨offset, b, s.length⟩ (.error ⟨b, offset, .stackUnderflow⟩)
      | v :: _ => .ended ⟨offset, b, s.length⟩ (.ok v) := by
  cases s <;> simp only [runFrom.eq_def _ _ _ _ (b :: rest), hop]

end Runs

/-! ## Faults -/

/-- The fault names the instruction at its offset.  Only a missing return stands
behind the code, and only a byte that is no instruction is unknown. -/
structure RuntimeFault.PointsInto (f : RuntimeFault) (c : Chunk) : Prop where
  missing : f.cause = .missingReturn → f.op = Opcode.ret.byte ∧ f.offset = c.code.length
  byte : f.cause ≠ .missingReturn → c.code[f.offset]? = some f.op
  unknown : ∀ b, f.cause = .unknownOpcode b → f.op = b ∧ ∀ op ∈ Opcode.all, op.byte ≠ b

/-- Whether a cause is found by an instruction that is carried out. -/
def FaultCause.isPerformed : FaultCause → Bool
  | .unknownOpcode _ | .missingReturn => false
  | _ => true

theorem RuntimeFault.pointsInto_of_isPerformed {c : Chunk} {b : UInt8} {offset : Nat}
    {cause : FaultCause} (hb : c.code[offset]? = some b) (hcause : cause.isPerformed = true) :
    RuntimeFault.PointsInto ⟨b, offset, cause⟩ c := by
  refine ⟨?_, fun _ => hb, ?_⟩
  · rintro rfl
    cases hcause
  · rintro b rfl
    cases hcause

theorem Opcode.isPerformed_of_effect {op : Opcode} {capacity : Nat} {s : Stack}
    {cause : FaultCause} (h : op.effect capacity s = .error cause) : cause.isPerformed = true := by
  cases op with
  | const => cases h
  | truth b =>
    rw [Stack.cause_of_push h]
    rfl
  | unary op =>
    simp only [effect, Stack.unary] at h
    split at h
    · split at h
      · cases h
      · next e _ =>
        cases h
        cases e <;> rfl
    · cases h
      rfl
  | binary op =>
    simp only [effect, Stack.binary] at h
    split at h
    · split at h
      · cases h
      · next e _ =>
        cases h
        cases e <;> rfl
    · cases h
      rfl
  | ret => cases h

/-! ## One turn -/

namespace Registers

/-- The instruction in a state has been completed: the stack and the place in the
code have changed as the table says. -/
def Completes (c : Chunk) (r r' : Registers) : Prop :=
  ∃ op : Opcode, c.code[r.ip]? = some op.byte ∧ (r'.sp : Int) = r.sp + op.pushes - op.pops ∧
    r'.ip = r.ip + op.length ∧ r'.ip ≤ c.code.length

/-- The run on a list of values from the place in the code on. -/
def runOf (c : Chunk) (capacity : Nat) (r : Registers) (s : Stack) : Execution :=
  runFrom c.constants capacity r.ip s (c.code.drop r.ip)

/-- What a turn may be in a state that models a stack. -/
def Lawful (c : Chunk) (capacity : Nat) (r : Registers) (s : Stack) : Turn → Prop
  | .goesOn r' =>
    Completes c r r' ∧ ∃ s', Models capacity r' s' ∧
      r.runOf c capacity s =
        ⟨r.reads c ++ (r'.runOf c capacity s').trace, (r'.runOf c capacity s').result⟩
  | .returns v r' => Completes c r r' ∧ r.runOf c capacity s = ⟨r.reads c, .ok v⟩
  | .faults f => f.PointsInto c ∧ r.runOf c capacity s = ⟨r.reads c, .error f⟩
  | .strays => False

section Turns

variable {c : Chunk} {capacity : Nat} {r : Registers} {s : Stack} {b : UInt8}

theorem turn_of_unknown (hb : c.code[r.ip]? = some b) (hop : Opcode.ofByte? b = none) :
    r.turn c = .faults ⟨b, r.ip, .unknownOpcode b⟩ := by
  have hlt := (List.getElem?_eq_some_iff.mp hb).1
  rw [turn, if_neg (by omega), fetch, hb]
  simp only [hop]

theorem turn_of_opcode (hb : c.code[r.ip]? = some b) {op : Opcode}
    (hop : Opcode.ofByte? b = some op) :
    r.turn c = .ofPerformed b r.ip (({ r with ip := r.ip + 1 } : Registers).perform c op) := by
  have hlt := (List.getElem?_eq_some_iff.mp hb).1
  rw [turn, if_neg (by omega), fetch, hb]
  simp only [hop]

theorem runOf_of_byte (hb : c.code[r.ip]? = some b) :
    r.runOf c capacity s =
      runFrom c.constants capacity r.ip s (b :: c.code.drop (r.ip + 1)) := by
  obtain ⟨hlt, rfl⟩ := List.getElem?_eq_some_iff.mp hb
  rw [runOf, List.drop_eq_getElem_cons hlt]

theorem Models.reads (h : Models capacity r s) (hb : c.code[r.ip]? = some b) :
    r.reads c = [⟨r.ip, b, s.length⟩] := by
  rw [Registers.reads, hb, h.count]

theorem lawful_end (hip : r.ip = c.code.length) : Lawful c capacity r s (r.turn c) := by
  have hnone : c.code[r.ip]? = none := by simp [hip]
  rw [turn, if_pos (by omega)]
  refine ⟨⟨fun _ => ⟨rfl, hip⟩, fun hne => absurd rfl hne, fun b hb => by cases hb⟩, ?_⟩
  rw [runOf, hip, List.drop_length, Registers.reads, hnone]
  rfl

theorem lawful_unknown (h : Models capacity r s) (hb : c.code[r.ip]? = some b)
    (hop : Opcode.ofByte? b = none) : Lawful c capacity r s (r.turn c) := by
  rw [turn_of_unknown hb hop]
  refine ⟨⟨fun hne => (by cases hne), fun _ => hb, ?_⟩, ?_⟩
  · intro b' hb'
    cases hb'
    exact ⟨rfl, fun op _ => Opcode.byte_ne_of_ofByte? hop op⟩
  · rw [runOf_of_byte hb, runFrom_eq_unknown hop, h.reads hb]
    rfl

/-- An instruction is lawful that does to the slots what it does to the stack, if
the table tells its length and how it changes the stack. -/
theorem lawful_of_tracks (h : Models capacity r s) (hb : c.code[r.ip]? = some b) {op : Opcode}
    (hop : Opcode.ofByte? b = some op) {r₁ : Registers} (hip : r₁.ip = r.ip + op.length)
    (hle : r₁.ip ≤ c.code.length) {performed : Except Halt (Option Value × Registers)}
    {outcome : Except FaultCause Stack} (htracks : Tracks capacity r₁ performed outcome)
    (hlength : ∀ s', outcome = .ok s' → s'.length + op.pops = s.length + op.pushes)
    (hcause : ∀ cause, outcome = .error cause → cause.isPerformed = true)
    (hrun : r.runOf c capacity s =
      .ofOutcome ⟨r.ip, b, s.length⟩ (fun s' => r₁.runOf c capacity s') outcome) :
    Lawful c capacity r s (.ofPerformed b r.ip performed) := by
  cases outcome with
  | error cause =>
    have hperformed : performed = .error (.fault cause) := htracks
    rw [hperformed]
    refine ⟨RuntimeFault.pointsInto_of_isPerformed hb (hcause cause rfl), ?_⟩
    rw [hrun, h.reads hb]
    rfl
  | ok s' =>
    obtain ⟨r', hperformed, hip', hmodels⟩ := htracks
    rw [hperformed]
    refine ⟨⟨op, ?_, ?_, ?_, ?_⟩, s', hmodels, ?_⟩
    · rw [hb, Opcode.byte_of_ofByte? hop]
    · have hs := hlength s' rfl
      rw [hmodels.count, h.count]
      omega
    · rw [hip', hip]
    · rw [hip']
      exact hle
    · rw [hrun, h.reads hb, runOf, hip']
      rfl

theorem lawful_effect (h : Models capacity r s) (hb : c.code[r.ip]? = some b) {op : Opcode}
    (hop : Opcode.ofByte? b = some op) (hconst : op ≠ .const) (hret : op ≠ .ret) :
    Lawful c capacity r s (r.turn c) := by
  have hlt := (List.getElem?_eq_some_iff.mp hb).1
  have hone : op.length = 1 := Opcode.length_eq_one hconst
  have hnext : Models capacity { r with ip := r.ip + 1 } s := ⟨h.room, h.count, h.values⟩
  rw [turn_of_opcode hb hop]
  refine lawful_of_tracks h hb hop ?_ ?_ (hnext.tracks_effect c hconst hret) ?_ ?_ ?_
  · rw [hone]
  · exact hlt
  · intro s' hs'
    exact Opcode.length_of_effect hconst hret hs'
  · intro cause hcause
    exact Opcode.isPerformed_of_effect hcause
  · rw [runOf_of_byte hb, runFrom_eq_effect hop hconst hret]
    rfl

theorem perform_const {index : UInt8} (hindex : c.code[r.ip]? = some index) :
    r.perform c .const =
      match c.constants[index.toNat]? with
      | none => .error (.fault (.badConstant index.toNat c.constants.length))
      | some v => do return (none, ← ({ r with ip := r.ip + 1 } : Registers).push v) := by
  have hlt := (List.getElem?_eq_some_iff.mp hindex).1
  have hconstant : c.constant? index.toNat = c.constants[index.toNat]? := by
    simp [Chunk.constant?]
  rw [perform, if_neg (by omega), fetch, hindex]
  cases hv : c.constants[index.toNat]? <;> simp only [ok_bind, hconstant, hv]

theorem lawful_const (h : Models capacity r s) (hb : c.code[r.ip]? = some b)
    (hop : Opcode.ofByte? b = some .const) : Lawful c capacity r s (r.turn c) := by
  rw [turn_of_opcode hb hop]
  by_cases hend : c.code.length ≤ r.ip + 1
  · -- The operand byte is missing.
    have hperform : Registers.perform c { r with ip := r.ip + 1 } .const =
        .error (.fault .truncated) := if_pos hend
    simp only [hperform]
    refine ⟨RuntimeFault.pointsInto_of_isPerformed hb rfl, ?_⟩
    rw [runOf_of_byte hb, List.drop_eq_nil_of_le hend, runFrom_eq_truncated hop, h.reads hb]
    rfl
  · have hlt : r.ip + 1 < c.code.length := by omega
    have hindex : c.code[r.ip + 1]? = some c.code[r.ip + 1] := List.getElem?_eq_getElem hlt
    have hrun : r.runOf c capacity s = _ := runOf_of_byte hb
    rw [List.drop_eq_getElem_cons hlt, runFrom_eq_constant hop] at hrun
    rw [perform_const (r := { r with ip := r.ip + 1 }) hindex]
    cases hv : c.constants[c.code[r.ip + 1].toNat]? with
    | none =>
      simp only [hv] at hrun
      refine ⟨RuntimeFault.pointsInto_of_isPerformed hb rfl, ?_⟩
      rw [hrun, h.reads hb]
      rfl
    | some v =>
      simp only [hv] at hrun
      have hnext : Models capacity { r with ip := r.ip + 2 } s := ⟨h.room, h.count, h.values⟩
      have hle : ({ r with ip := r.ip + 2 } : Registers).ip ≤ c.code.length := hlt
      refine lawful_of_tracks h hb hop rfl hle (hnext.tracks_push v) ?_ ?_ hrun
      · intro s' hs'
        rw [Stack.length_of_push hs']
        rfl
      · intro cause hcause
        rw [Stack.cause_of_push hcause]
        rfl

theorem lawful_return (h : Models capacity r s) (hb : c.code[r.ip]? = some b)
    (hop : Opcode.ofByte? b = some .ret) : Lawful c capacity r s (r.turn c) := by
  have hlt := (List.getElem?_eq_some_iff.mp hb).1
  have hnext : Models capacity { r with ip := r.ip + 1 } s := ⟨h.room, h.count, h.values⟩
  rw [turn_of_opcode hb hop]
  cases s with
  | nil =>
    simp only [perform, hnext.pop_nil]
    refine ⟨RuntimeFault.pointsInto_of_isPerformed hb rfl, ?_⟩
    rw [runOf_of_byte hb, runFrom_eq_return hop, h.reads hb]
    rfl
  | cons v s =>
    simp only [perform, hnext.pop_cons]
    refine ⟨⟨.ret, ?_, ?_, rfl, hlt⟩, ?_⟩
    · rw [hb, Opcode.byte_of_ofByte? hop]
    · rw [h.count, List.length_cons]
      simp [Opcode.pushes, Opcode.pops]
    · rw [runOf_of_byte hb, runFrom_eq_return hop, h.reads hb]
      rfl

/-- Every turn is lawful in a state that models a stack. -/
theorem lawful_turn (h : Models capacity r s) (hip : r.ip ≤ c.code.length) :
    Lawful c capacity r s (r.turn c) := by
  by_cases hend : r.ip = c.code.length
  · exact lawful_end hend
  · have hlt : r.ip < c.code.length := by omega
    have hb : c.code[r.ip]? = some c.code[r.ip] := List.getElem?_eq_getElem hlt
    cases hop : Opcode.ofByte? c.code[r.ip] with
    | none => exact lawful_unknown h hb hop
    | some op =>
      by_cases hconst : op = .const
      · subst hconst
        exact lawful_const h hb hop
      · by_cases hret : op = .ret
        · subst hret
          exact lawful_return h hb hop
        · exact lawful_effect h hb hop hconst hret

end Turns

/-! ## Whole runs -/

section Whole

variable {c : Chunk} {capacity : Nat} {r : Registers} {s : Stack}

/-- The states of a run model stacks. -/
theorem Reachable.models (h : Reachable c capacity r) :
    r.ip ≤ c.code.length ∧ ∃ s, Models capacity r s := by
  induction h with
  | start h => exact ⟨Nat.zero_le _, [], models_start h⟩
  | turn _ hturn ih =>
    obtain ⟨hip, s, hmodels⟩ := ih
    have hlawful := lawful_turn hmodels hip
    rw [hturn] at hlawful
    obtain ⟨⟨op, _, _, _, hle⟩, s', hmodels', _⟩ := hlawful
    exact ⟨hle, s', hmodels'⟩

/-- What holds where a run ends, and is handed back by each instruction, holds of
the run.  The induction is on the code that is left: each instruction takes at
least one byte. -/
theorem runOf_induction {motive : Registers → Execution → Prop}
    (goesOn : ∀ {r r' e}, r.turn c = .goesOn r' → Completes c r r' → motive r' e →
      motive r ⟨r.reads c ++ e.trace, e.result⟩)
    (returns : ∀ {r r' v}, r.turn c = .returns v r' → motive r ⟨r.reads c, .ok v⟩)
    (faults : ∀ {r f}, r.turn c = .faults f → f.PointsInto c → motive r ⟨r.reads c, .error f⟩)
    (h : Models capacity r s) (hip : r.ip ≤ c.code.length) : motive r (r.runOf c capacity s) := by
  induction hleft : c.code.length - r.ip using Nat.strongRecOn generalizing r s with
  | ind left ih =>
    have hlawful := lawful_turn h hip
    cases hturn : r.turn c with
    | goesOn r' =>
      rw [hturn] at hlawful
      obtain ⟨hcompletes, s', hmodels, hrun⟩ := hlawful
      have ⟨op, _, _, hip', hle⟩ := hcompletes
      have hlength : 1 ≤ op.length := Nat.le_add_right 1 _
      rw [hrun]
      exact goesOn hturn hcompletes (ih _ (by omega) hmodels hle rfl)
    | returns v r' =>
      rw [hturn] at hlawful
      rw [hlawful.2]
      exact returns hturn
    | faults f =>
      rw [hturn] at hlawful
      rw [hlawful.2]
      exact faults hturn hlawful.1
    | strays =>
      rw [hturn] at hlawful
      exact hlawful.elim

theorem runs_runOf (h : Models capacity r s) (hip : r.ip ≤ c.code.length) :
    Runs c r (r.runOf c capacity s) :=
  runOf_induction (fun hturn _ h => .goesOn hturn h) (fun hturn => .returns hturn)
    (fun hturn _ => .faults hturn) h hip

theorem length_reads_le (c : Chunk) (r : Registers) :
    (r.reads c).length ≤ 1 ∧ (r.reads c).length ≤ c.code.length - r.ip := by
  unfold Registers.reads
  cases hb : c.code[r.ip]? with
  | none => simp
  | some b =>
    have hlt := (List.getElem?_eq_some_iff.mp hb).1
    simp only [List.length_singleton]
    omega

/-- A run reads no more instructions than there are bytes left. -/
theorem length_trace_runOf_le (h : Models capacity r s) (hip : r.ip ≤ c.code.length) :
    (r.runOf c capacity s).trace.length ≤ c.code.length - r.ip := by
  refine runOf_induction (motive := fun r e => e.trace.length ≤ c.code.length - r.ip)
    ?_ ?_ ?_ h hip
  · intro r r' e _ hcompletes hlength
    obtain ⟨op, _, _, hip', hle⟩ := hcompletes
    have hone : 1 ≤ op.length := Nat.le_add_right 1 _
    have hreads := (length_reads_le c r).1
    simp only [List.length_append]
    omega
  · intro r r' v _
    exact (length_reads_le c r).2
  · intro r f _ _
    exact (length_reads_le c r).2

theorem pointsInto_runOf (h : Models capacity r s) (hip : r.ip ≤ c.code.length) :
    ∀ f, (r.runOf c capacity s).result = .error f → f.PointsInto c := by
  refine runOf_induction (motive := fun _ e => ∀ f, e.result = .error f → f.PointsInto c)
    ?_ ?_ ?_ h hip
  · intro r r' e _ _ hresult
    exact hresult
  · intro r r' v _ f hf
    cases hf
  · intro r f _ hpoints f' hf'
    cases hf'
    exact hpoints

end Whole

end Registers

/-! ## Classes of faults -/

/-- The classes of faults. -/
inductive FaultClass where
  | unknownOpcode | typeMismatch | stackOverflow | stackUnderflow
  | badConstant | truncated | divisionByZero | missingReturn
  deriving DecidableEq

namespace FaultClass

/-- The text with which every message of the class begins. -/
def text : FaultClass → Bytes
  | .unknownOpcode => utf8 "unknown opcode"
  | .typeMismatch => utf8 "operand type mismatch"
  | .stackOverflow => utf8 "stack overflow"
  | .stackUnderflow => utf8 "stack underflow"
  | .badConstant => utf8 "constant index out of range"
  | .truncated => utf8 "truncated instruction"
  | .divisionByZero => utf8 "integer division by zero"
  | .missingReturn => utf8 "code ended without RETURN"

/-- The class of a cause. -/
def ofCause : FaultCause → FaultClass
  | .unknownOpcode _ => .unknownOpcode
  | .unaryMismatch _ _ | .binaryMismatch _ _ _ => .typeMismatch
  | .stackOverflow _ => .stackOverflow
  | .stackUnderflow => .stackUnderflow
  | .badConstant _ _ => .badConstant
  | .truncated => .truncated
  | .divisionByZero => .divisionByZero
  | .missingReturn => .missingReturn

theorem eq_of_text_isPrefix {k l : FaultClass} (h : k.text <+: l.text) : k = l := by
  revert h
  cases k <;> cases l <;> decide

theorem text_isPrefix_message (cause : FaultCause) : (ofCause cause).text <+: cause.message := by
  have hunknown : unknownOpcode.text <+: utf8 "unknown opcode 0x" := by decide
  have hmismatch : typeMismatch.text <+: FaultCause.mismatchText := by decide
  have hoverflow : stackOverflow.text <+: utf8 "stack overflow: capacity " := by decide
  have hconstant : badConstant.text <+: utf8 "constant index out of range: " := by decide
  cases cause with
  | unknownOpcode b => exact List.prefix_append_of_prefix hunknown
  | unaryMismatch op k =>
    cases op with
    | negate => exact List.prefix_append_of_prefix (List.prefix_append_of_prefix hmismatch)
    | not => exact List.prefix_append_of_prefix (List.prefix_append_of_prefix hmismatch)
  | binaryMismatch op k l =>
    simp only [FaultCause.message, List.append_assoc]
    exact List.prefix_append_of_prefix hmismatch
  | stackOverflow capacity => exact List.prefix_append_of_prefix hoverflow
  | stackUnderflow => exact List.prefix_refl _
  | badConstant index count =>
    simp only [FaultCause.message, List.append_assoc]
    exact List.prefix_append_of_prefix hconstant
  | truncated => exact List.prefix_refl _
  | divisionByZero => exact List.prefix_refl _
  | missingReturn => exact List.prefix_refl _

/-- Every fault is of just one class. -/
theorem existsUnique_text_isPrefix (cause : FaultCause) :
    ∃! k : FaultClass, k.text <+: cause.message := by
  refine ⟨ofCause cause, text_isPrefix_message cause, ?_⟩
  intro k hk
  rcases List.prefix_or_prefix_of_prefix hk (text_isPrefix_message cause) with h | h
  · exact eq_of_text_isPrefix h
  · exact (eq_of_text_isPrefix h).symm

end FaultClass

/-! ## Machines -/

/-- On every chunk and with every capacity, the machine stays within its slots and
its code, changes both with each completed instruction as the table says, and ends
after at most as many instructions as there are bytes.  It ends with a value, or
with a fault of one class that names its instruction. -/
theorem execute_safe (c : Chunk) (m : Machine) :
    (∀ r, Registers.Reachable c m.capacity r →
      r.slots.length = m.capacity ∧ r.sp ≤ m.capacity ∧ r.ip ≤ c.code.length ∧
        r.turn c ≠ .strays ∧
        ∀ r', (r.turn c = .goesOn r' ∨ ∃ v, r.turn c = .returns v r') → r.Completes c r') ∧
      (∀ slots : List Value, slots.length = m.capacity →
        Registers.Runs c (.start slots) (m.execute c).1) ∧
      (m.execute c).1.trace.length ≤ c.code.length ∧
      match (m.execute c).1.result with
      | .ok _ => (m.execute c).2.state = .returned
      | .error f =>
        (m.execute c).2.state = .faulted ∧
          (∃! k : FaultClass, k.text <+: f.cause.message) ∧ f.PointsInto c := by
  -- The run does not depend on the slots; those of the first run are as good as any.
  have hfirst := Registers.models_start (List.length_replicate (n := m.capacity) (a := .untagged))
  have hzero : ∀ slots, (Registers.start slots).ip ≤ c.code.length := fun _ => Nat.zero_le _
  refine ⟨?_, ?_, Registers.length_trace_runOf_le hfirst (hzero _), ?_⟩
  · intro r hr
    obtain ⟨hip, s, hmodels⟩ := hr.models
    have hlawful := Registers.lawful_turn hmodels hip
    refine ⟨hmodels.room, hmodels.sp_le, hip, ?_, ?_⟩
    · intro hstrays
      rw [hstrays] at hlawful
      exact hlawful
    · intro r' hr'
      rcases hr' with hturn | ⟨v, hturn⟩
      · rw [hturn] at hlawful
        exact hlawful.1
      · rw [hturn] at hlawful
        exact hlawful.1
  · intro slots hslots
    exact Registers.runs_runOf (Registers.models_start hslots) (hzero slots)
  · cases hresult : (m.execute c).1.result with
    | ok v =>
      simp only [Machine.execute] at hresult ⊢
      rw [hresult]
    | error f =>
      refine ⟨?_, FaultClass.existsUnique_text_isPrefix f.cause,
        Registers.pointsInto_runOf hfirst (hzero _) f hresult⟩
      simp only [Machine.execute] at hresult ⊢
      rw [hresult]

end Abacus
