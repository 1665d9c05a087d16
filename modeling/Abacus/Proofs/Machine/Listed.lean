import Mathlib.Data.List.TakeWhile
import Abacus.Machine.Listing
import Abacus.Proofs.Generate.Instructions
import Abacus.Proofs.Machine.Safety

/-!
# The listing and the run

The listing of a chunk and the machine read the same code, each by rules of its own for
how long an instruction is.  `Chunk.Visits` is the walk of the listing as a relation: from
an offset it goes on behind the instruction that is shown there, and it ends with the
code.  Whatever the bytes are,

* the walk ends, and its instructions cover every byte once (`exists_visits`,
  `Visits.existsUnique`);
* the bytes at an offset say what is shown there, and what is shown tells the opcode
  (`described`, `code_eq_of_instructionAt_eq`);
* count, lines and listing are made from the offsets of this walk (`Visits.walk_eq`);
* the machine reads its instructions at the offsets of this walk, from the first one on,
  and ends inside it or with it (`Visits.follows`).

The last fact rests on `runFrom_shown`, which says what the machine can do at an offset:
it ends there, or it goes on where the listing goes on.
-/

namespace Abacus

namespace Bytes

/-- The number that upper-case hexadecimal digits denote. -/
def ofHex (ds : Bytes) : UInt8 :=
  ds.foldl (fun n d => 16 * n + (if d ≤ 0x39 then d - 0x30 else d - 0x37)) 0

theorem ofHex_hexUpper (b : UInt8) : ofHex (hexUpper 2 b.toNat) = b := by
  have hall : ∀ n < 256, ofHex (hexUpper 2 n) = UInt8.ofNat n := by decide +kernel
  rw [hall b.toNat b.toNat_lt, UInt8.ofNat_toNat]

/-- A word ends at the first blank. -/
theorem takeWhile_word {word : Bytes} (rest : Bytes) (h : word.all (· ≠ blank) = true) :
    (word ++ blank :: rest).takeWhile (· ≠ blank) = word := by
  rw [List.takeWhile_append_of_pos (List.all_eq_true.mp h)]
  simp

end Bytes

namespace Opcode

/-- The word with which the listing of an instruction starts. -/
def word : Option Opcode → Bytes
  | none => utf8 "INVALID"
  | some op => op.name

theorem mem_all (op : Opcode) : op ∈ all := by
  cases op with
  | const => decide
  | truth b => cases b <;> decide
  | unary op => cases op <;> decide
  | binary op => cases op <;> decide
  | ret => decide

theorem mem_words (x : Option Opcode) : x ∈ none :: all.map some := by
  cases x with
  | none => exact List.mem_cons_self
  | some op => exact List.mem_cons_of_mem _ (List.mem_map_of_mem op.mem_all)

theorem word_inj {x y : Option Opcode} (h : word x = word y) : x = y := by
  have hall : ∀ x ∈ none :: all.map some, ∀ y ∈ none :: all.map some, word x = word y → x = y := by
    decide +kernel
  exact hall x (mem_words x) y (mem_words y) h

theorem all_word (x : Option Opcode) : (word x).all (· ≠ Bytes.blank) = true := by
  have hall : ∀ x ∈ none :: all.map some, (word x).all (· ≠ Bytes.blank) = true := by
    decide +kernel
  exact hall x (mem_words x)

end Opcode

namespace Chunk

/-- How many bytes the listing shows as the instruction at an offset. -/
def lengthAt (c : Chunk) (offset : Nat) : Nat :=
  (Listing.instruction c.constants (c.code.drop offset)).2

/-- The offsets at which a walk over the code stops that starts at the given one. -/
inductive Visits (c : Chunk) : Nat → List Nat → Prop
  | ended {offset : Nat} (h : c.code.length ≤ offset) : Visits c offset []
  | shown {offset : Nat} {offsets : List Nat} (h : offset < c.code.length)
      (rest : Visits c (offset + c.lengthAt offset) offsets) : Visits c offset (offset :: offsets)

/-- What the listing shows for the instruction at an offset, by the byte that stands there:
its text, and how many bytes it takes. -/
inductive Described (c : Chunk) (offset : Nat) : Prop
  | invalid {b : UInt8} (hb : c.code[offset]? = some b) (hop : ∀ op : Opcode, op.byte ≠ b)
      (text : c.instructionAt offset = utf8 "INVALID 0x" ++ Bytes.hexUpper 2 b.toNat)
      (length : c.lengthAt offset = 1)
  | plain {op : Opcode} (hb : c.code[offset]? = some op.byte) (hop : op ≠ .const)
      (text : c.instructionAt offset = op.name) (length : c.lengthAt offset = 1)
  /-- A constant whose operand is cut off. -/
  | truncated (hb : c.code[offset]? = some Opcode.const.byte)
      (hend : c.code[offset + 1]? = none)
      (text : c.instructionAt offset = utf8 "CONST <truncated>") (length : c.lengthAt offset = 1)
  | constant {index : UInt8} {v : Value} (hb : c.code[offset]? = some Opcode.const.byte)
      (hindex : c.code[offset + 1]? = some index) (hv : c.constants[index.toNat]? = some v)
      (text : c.instructionAt offset =
        utf8 "CONST " ++ Bytes.ofNat index.toNat ++ utf8 " ; " ++ v.describe)
      (length : c.lengthAt offset = 2)
  /-- A constant that is not there. -/
  | outside {index : UInt8} (hb : c.code[offset]? = some Opcode.const.byte)
      (hindex : c.code[offset + 1]? = some index) (hv : c.constants[index.toNat]? = none)
      (text : c.instructionAt offset =
        utf8 "CONST " ++ Bytes.ofNat index.toNat ++ utf8 " ; " ++ utf8 "<out of range>")
      (length : c.lengthAt offset = 2)

/-- The instructions that a run read are those at the offsets, from the first one on.  It
ends at the last one that it read, with a return or a fault, unless it has read them all
and lacks a return. -/
structure Follows (c : Chunk) (offsets : List Nat) (e : Execution) : Prop where
  traced : e.trace.map (fun t => (t.offset, some t.op)) <+:
    offsets.map fun offset => (offset, c.code[offset]?)
  ends :
    match e.result with
    | .ok _ => ∃ t, e.trace.getLast? = some t ∧ t.op = Opcode.ret.byte
    | .error f =>
      if f.cause = .missingReturn then
        e.trace.map (fun t => (t.offset, some t.op)) =
          offsets.map fun offset => (offset, c.code[offset]?)
      else ∃ t, e.trace.getLast? = some t ∧ t.offset = f.offset ∧ t.op = f.op

/-! ## Single instructions -/

section Single

variable {c : Chunk} {offset : Nat}

/-- Whatever byte stands in the code, it is shown in one of these ways. -/
theorem described (h : offset < c.code.length) : c.Described offset := by
  have hhere : c.code[offset]? = some c.code[offset] := List.getElem?_eq_getElem h
  have hdrop := List.drop_eq_getElem_cons h
  cases hop : Opcode.ofByte? c.code[offset] with
  | none =>
    refine .invalid hhere (Opcode.byte_ne_of_ofByte? hop) ?_ ?_
    · simp only [instructionAt, hdrop, Listing.instruction, hop]
    · simp only [lengthAt, hdrop, Listing.instruction, hop]
  | some op =>
    rw [← Opcode.byte_of_ofByte? hop] at hhere
    by_cases hconst : op = .const
    · subst hconst
      by_cases hend : offset + 1 < c.code.length
      · have hindex := List.getElem?_eq_getElem hend
        have hnext := List.drop_eq_getElem_cons hend
        cases hv : c.constants[c.code[offset + 1].toNat]? with
        | some v =>
          refine .constant hhere hindex hv ?_ ?_
          · simp only [instructionAt, hdrop, hnext, Listing.instruction, hop, hv]
          · simp only [lengthAt, hdrop, hnext, Listing.instruction, hop, hv]
        | none =>
          refine .outside hhere hindex hv ?_ ?_
          · simp only [instructionAt, hdrop, hnext, Listing.instruction, hop, hv]
          · simp only [lengthAt, hdrop, hnext, Listing.instruction, hop, hv]
      · have hnext : c.code.drop (offset + 1) = [] := List.drop_eq_nil_of_le (by omega)
        refine .truncated hhere (List.getElem?_eq_none (by omega)) ?_ ?_
        · simp only [instructionAt, hdrop, hnext, Listing.instruction, hop]
        · simp only [lengthAt, hdrop, hnext, Listing.instruction, hop]
    · have hone := Opcode.length_eq_one hconst
      refine .plain hhere hconst ?_ ?_
      · cases op with
        | const => contradiction
        | _ => simp only [instructionAt, hdrop, Listing.instruction, hop]
      · rw [lengthAt, hdrop, Listing.length_instruction _ hop (by omega), hone]

/-- The text starts with the word for the opcode; for an invalid byte, the byte follows. -/
theorem Described.word (h : c.Described offset) :
    ∃ b, c.code[offset]? = some b ∧
      (c.instructionAt offset).takeWhile (· ≠ Bytes.blank) = Opcode.word (Opcode.ofByte? b) ∧
      (Opcode.ofByte? b = none →
        c.instructionAt offset = utf8 "INVALID 0x" ++ Bytes.hexUpper 2 b.toNat) := by
  have hconst : ∀ rest, (utf8 "CONST " ++ rest).takeWhile (· ≠ Bytes.blank) = utf8 "CONST" :=
    fun rest => Bytes.takeWhile_word rest (Opcode.all_word (some .const))
  cases h with
  | @invalid b hb hop htext _ =>
    have hnone : Opcode.ofByte? b = none := by
      cases hfound : Opcode.ofByte? b with
      | none => rfl
      | some op => exact absurd (Opcode.byte_of_ofByte? hfound) (hop op)
    refine ⟨b, hb, ?_, fun _ => htext⟩
    rw [htext, hnone]
    exact Bytes.takeWhile_word (utf8 "0x" ++ Bytes.hexUpper 2 b.toNat) (Opcode.all_word none)
  | @plain op hb _ htext _ =>
    refine ⟨op.byte, hb, ?_, by simp⟩
    rw [htext, Opcode.ofByte?_byte]
    exact List.takeWhile_eq_self_iff.mpr (List.all_eq_true.mp (Opcode.all_word (some op)))
  | truncated hb _ htext _ =>
    refine ⟨_, hb, ?_, by simp⟩
    rw [htext]
    exact hconst (utf8 "<truncated>")
  | constant hb _ _ htext _ | outside hb _ _ htext _ =>
    refine ⟨_, hb, ?_, by simp⟩
    rw [htext, List.append_assoc, List.append_assoc]
    exact hconst _

/-- An instruction has at least one byte, and none behind the code. -/
theorem lengthAt_bounds (h : offset < c.code.length) :
    1 ≤ c.lengthAt offset ∧ offset + c.lengthAt offset ≤ c.code.length := by
  cases described h with
  | invalid _ _ _ hlength | plain _ _ _ hlength | truncated _ _ _ hlength => omega
  | constant _ hindex _ _ hlength | outside _ hindex _ _ hlength =>
    have hnext := (List.getElem?_eq_some_iff.mp hindex).1
    omega

/-- Instructions that look alike have the same opcode. -/
theorem code_eq_of_instructionAt_eq {o : Nat} (h : offset < c.code.length) (ho : o < c.code.length)
    (htext : c.instructionAt offset = c.instructionAt o) : c.code[offset]? = c.code[o]? := by
  obtain ⟨b, hb, hword, hinvalid⟩ := (described h).word
  obtain ⟨b', hb', hword', hinvalid'⟩ := (described ho).word
  have hop : Opcode.ofByte? b = Opcode.ofByte? b' :=
    Opcode.word_inj (by rw [← hword, ← hword', htext])
  rw [hb, hb']
  cases hfound : Opcode.ofByte? b with
  | some op =>
    rw [hfound] at hop
    rw [← Opcode.byte_of_ofByte? hfound, ← Opcode.byte_of_ofByte? hop.symm]
  | none =>
    rw [hfound] at hop
    rw [hinvalid hfound, hinvalid' hop.symm] at htext
    rw [← Bytes.ofHex_hexUpper b, ← Bytes.ofHex_hexUpper b', List.append_cancel_left htext]

end Single

/-! ## The walk of the listing -/

section Walk

variable {c : Chunk} {offset : Nat} {offsets : List Nat}

/-- The walk ends, wherever it starts: each instruction takes it nearer to the end. -/
theorem exists_visits (c : Chunk) (offset : Nat) : ∃ offsets, c.Visits offset offsets := by
  induction hleft : c.code.length - offset using Nat.strongRecOn generalizing offset with
  | ind left ih =>
    by_cases hend : c.code.length ≤ offset
    · exact ⟨[], .ended hend⟩
    · have hlt : offset < c.code.length := by omega
      have hbounds := lengthAt_bounds hlt
      obtain ⟨offsets, hrest⟩ := ih _ (by omega) (offset + c.lengthAt offset) rfl
      exact ⟨offset :: offsets, .shown hlt hrest⟩

namespace Visits

theorem lt_of_mem {o : Nat} (h : c.Visits offset offsets) (ho : o ∈ offsets) :
    o < c.code.length := by
  induction h with
  | ended => cases ho
  | shown hlt _ ih =>
    rcases List.mem_cons.mp ho with rfl | ho
    · exact hlt
    · exact ih ho

theorem le_of_mem {o : Nat} (h : c.Visits offset offsets) (ho : o ∈ offsets) : offset ≤ o := by
  induction h with
  | ended => cases ho
  | shown hlt _ ih =>
    rcases List.mem_cons.mp ho with rfl | ho
    · exact Nat.le_refl _
    · have hle := ih ho
      omega

/-- The offsets increase. -/
theorem pairwise (h : c.Visits offset offsets) : offsets.Pairwise (· < ·) := by
  induction h with
  | ended => exact .nil
  | shown hlt hrest ih =>
    refine .cons ?_ ih
    intro o ho
    have hbounds := lengthAt_bounds hlt
    have hle := hrest.le_of_mem ho
    omega

/-- Every byte belongs to just one instruction. -/
theorem existsUnique {i : Nat} (h : c.Visits offset offsets) (hle : offset ≤ i)
    (hlt : i < c.code.length) :
    ∃! o, o ∈ offsets ∧ o ≤ i ∧ i < o + c.lengthAt o := by
  induction h with
  | ended hend => omega
  | @shown offset offsets hoffset hrest ih =>
    by_cases hhere : i < offset + c.lengthAt offset
    · refine ⟨offset, ⟨List.mem_cons_self, hle, hhere⟩, ?_⟩
      rintro o ⟨ho, hoi, -⟩
      rcases List.mem_cons.mp ho with rfl | ho
      · rfl
      · have hlater := hrest.le_of_mem ho
        omega
    · obtain ⟨o, ⟨ho, hoi, hio⟩, hunique⟩ := ih (by omega)
      refine ⟨o, ⟨List.mem_cons_of_mem _ ho, hoi, hio⟩, ?_⟩
      rintro o' ⟨ho', hoi', hio'⟩
      rcases List.mem_cons.mp ho' with rfl | ho'
      · exact absurd hio' hhere
      · exact hunique o' ⟨ho', hoi', hio'⟩

end Visits

/-- Bytes that belong to the instruction before are passed over. -/
theorem walk_skip (pool : List Value) (offset skip : Nat) (code : Bytes) :
    Listing.walk pool offset skip code = Listing.walk pool (offset + skip) 0 (code.drop skip) := by
  induction code generalizing offset skip with
  | nil => simp [Listing.walk]
  | cons b rest ih =>
    cases skip with
    | zero => rfl
    | succ skip =>
      rw [Listing.walk, ih, List.drop_succ_cons, Nat.add_right_comm, Nat.add_assoc]

/-- The listing shows the instructions at the offsets of its walk. -/
theorem Visits.walk_eq (h : c.Visits offset offsets) :
    Listing.walk c.constants offset 0 (c.code.drop offset) =
      offsets.map fun o => ⟨o, c.instructionAt o⟩ := by
  induction h with
  | ended hend =>
    rw [List.drop_eq_nil_of_le hend]
    rfl
  | @shown offset offsets hlt _ ih =>
    have hone := (lengthAt_bounds hlt).1
    have hstep : Listing.walk c.constants offset 0 (c.code.drop offset) =
        ⟨offset, c.instructionAt offset⟩ ::
          Listing.walk c.constants (offset + 1) (c.lengthAt offset - 1)
            (c.code.drop (offset + 1)) := by
      rw [instructionAt, lengthAt, List.drop_eq_getElem_cons hlt]
      rfl
    have hnext : offset + 1 + (c.lengthAt offset - 1) = offset + c.lengthAt offset := by omega
    rw [hstep, walk_skip, List.drop_drop, hnext, ih, List.map_cons]

end Walk

/-! ## The run -/

section Run

variable {c : Chunk} {capacity offset : Nat} {s : Stack} {offsets : List Nat}

/-- What the instruction at an offset makes of a run: the run ends there with a return or
a fault, or goes on where the listing goes on. -/
inductive Shown (c : Chunk) (capacity offset : Nat) (t : TraceEntry) (e : Execution) : Prop
  | returns (v : Value) (hop : t.op = Opcode.ret.byte) (h : e = .ended t (.ok v))
  | faults (cause : FaultCause) (hcause : cause ≠ .missingReturn)
      (h : e = .ended t (.error ⟨t.op, t.offset, cause⟩))
  | goesOn (s : Stack)
      (h : e = .after t (runFrom c.constants capacity (offset + c.lengthAt offset) s
        (c.code.drop (offset + c.lengthAt offset))))

theorem ne_missingReturn_of_isPerformed {cause : FaultCause} (h : cause.isPerformed = true) :
    cause ≠ .missingReturn := by
  rintro rfl
  cases h

theorem shown_ofOutcome (c : Chunk) (capacity offset : Nat) (t : TraceEntry)
    (outcome : Except FaultCause Stack)
    (hcause : ∀ cause, outcome = .error cause → cause.isPerformed = true) :
    Shown c capacity offset t
      (.ofOutcome t (fun s => runFrom c.constants capacity (offset + c.lengthAt offset) s
        (c.code.drop (offset + c.lengthAt offset))) outcome) := by
  cases outcome with
  | error cause => exact .faults cause (ne_missingReturn_of_isPerformed (hcause cause rfl)) rfl
  | ok s => exact .goesOn s rfl

theorem lengthAt_of_opcode (hlt : offset < c.code.length) {op : Opcode}
    (hop : Opcode.ofByte? c.code[offset] = some op) (hconst : op ≠ .const) :
    c.lengthAt offset = 1 := by
  have hone := Opcode.length_eq_one hconst
  rw [lengthAt, List.drop_eq_getElem_cons hlt, Listing.length_instruction _ hop (by omega), hone]

theorem runFrom_shown (capacity : Nat) (hlt : offset < c.code.length) (s : Stack) :
    Shown c capacity offset ⟨offset, c.code[offset], s.length⟩
      (runFrom c.constants capacity offset s (c.code.drop offset)) := by
  rw [List.drop_eq_getElem_cons hlt]
  cases hop : Opcode.ofByte? c.code[offset] with
  | none =>
    rw [runFrom_eq_unknown hop]
    exact .faults _ (by simp) rfl
  | some op =>
    by_cases hconst : op = .const
    · subst hconst
      by_cases hend : offset + 1 < c.code.length
      · have hlength : c.lengthAt offset = 2 := by
          have hoperand : Opcode.const.length - 1 ≤ (c.code.drop (offset + 1)).length := by
            rw [List.length_drop]
            exact Nat.sub_pos_of_lt hend
          rw [lengthAt, List.drop_eq_getElem_cons hlt, Listing.length_instruction _ hop hoperand]
          rfl
        rw [List.drop_eq_getElem_cons hend, runFrom_eq_constant hop]
        cases c.constants[c.code[offset + 1].toNat]? with
        | none => exact .faults _ (by simp) rfl
        | some v =>
          have hgoes := shown_ofOutcome c capacity offset ⟨offset, c.code[offset], s.length⟩
            (s.push capacity v)
            (fun cause hcause => by rw [Stack.cause_of_push hcause]; rfl)
          rw [hlength] at hgoes
          exact hgoes
      · rw [List.drop_eq_nil_of_le (by omega), runFrom_eq_truncated hop]
        exact .faults _ (by simp) rfl
    · have hlength : c.lengthAt offset = 1 := lengthAt_of_opcode hlt hop hconst
      by_cases hret : op = .ret
      · subst hret
        rw [runFrom_eq_return hop]
        cases s with
        | nil => exact .faults _ (by simp) rfl
        | cons v s => exact .returns v (Opcode.byte_of_ofByte? hop).symm rfl
      · have hgoes := shown_ofOutcome c capacity offset ⟨offset, c.code[offset], s.length⟩
          (op.effect capacity s)
          (fun cause hcause => Opcode.isPerformed_of_effect hcause)
        rw [hlength] at hgoes
        rw [runFrom_eq_effect hop hconst hret]
        exact hgoes

namespace Follows

/-- A run that ends at the first offset. -/
theorem ended {t : TraceEntry} {result : Except RuntimeFault Value}
    (ht : (t.offset, some t.op) = (offset, c.code[offset]?))
    (hends :
      match result with
      | .ok _ => t.op = Opcode.ret.byte
      | .error f => f.cause ≠ .missingReturn ∧ t.offset = f.offset ∧ t.op = f.op) :
    c.Follows (offset :: offsets) (.ended t result) := by
  constructor
  · rw [Execution.ended, List.map_cons, List.map_cons, ht]
    exact List.prefix_append [_] _
  · cases result with
    | ok v => exact ⟨t, rfl, hends⟩
    | error f =>
      obtain ⟨hcause, hplace⟩ := hends
      simp only [Execution.ended, if_neg hcause]
      exact ⟨t, rfl, hplace⟩

/-- A run that goes on behind the first offset. -/
theorem after {t : TraceEntry} {e : Execution}
    (ht : (t.offset, some t.op) = (offset, c.code[offset]?)) (h : c.Follows offsets e) :
    c.Follows (offset :: offsets) (.after t e) := by
  have hlast : ∀ u, e.trace.getLast? = some u → (t :: e.trace).getLast? = some u := by
    intro u hu
    rw [List.getLast?_cons, hu, Option.getD_some]
  constructor
  · rw [Execution.after, List.map_cons, List.map_cons, ht]
    exact List.cons_prefix_cons.mpr ⟨rfl, h.traced⟩
  · have hends := h.ends
    simp only [Execution.after]
    cases hresult : e.result with
    | ok v =>
      rw [hresult] at hends
      obtain ⟨u, hu, hop⟩ := hends
      exact ⟨u, hlast u hu, hop⟩
    | error f =>
      rw [hresult] at hends
      by_cases hcause : f.cause = .missingReturn
      · simp only [if_pos hcause] at hends ⊢
        rw [List.map_cons, List.map_cons, ht, hends]
      · simp only [if_neg hcause] at hends ⊢
        obtain ⟨u, hu, hplace⟩ := hends
        exact ⟨u, hlast u hu, hplace⟩

end Follows

/-- From every offset on, and with every stack, the machine follows the walk. -/
theorem Visits.follows (h : c.Visits offset offsets) (s : Stack) :
    c.Follows offsets (runFrom c.constants capacity offset s (c.code.drop offset)) := by
  induction h generalizing s with
  | ended hend =>
    rw [List.drop_eq_nil_of_le hend]
    exact ⟨List.nil_prefix, rfl⟩
  | @shown offset offsets hlt _ ih =>
    have hplace : (offset, some c.code[offset]) = (offset, c.code[offset]?) := by
      rw [List.getElem?_eq_getElem hlt]
    rcases runFrom_shown capacity hlt s with ⟨v, hop, h⟩ | ⟨cause, hcause, h⟩ | ⟨s', h⟩
    · rw [h]
      exact .ended hplace hop
    · rw [h]
      exact .ended hplace ⟨hcause, rfl, rfl⟩
    · rw [h]
      exact .after hplace (ih s')

end Run

/-! ## Chunks -/

/-- The offsets are those of the instructions of a chunk: of its listing, and of every run. -/
structure Listed (c : Chunk) (offsets : List Nat) : Prop where
  /-- The walk over the code ends and stops at these offsets. -/
  visits : c.Visits 0 offsets
  increasing : offsets.Pairwise (· < ·)
  /-- The instructions lie within the code, and each byte belongs to one of them. -/
  within : ∀ o ∈ offsets, o + c.lengthAt o ≤ c.code.length
  covered : ∀ i < c.code.length, ∃! o, o ∈ offsets ∧ o ≤ i ∧ i < o + c.lengthAt o
  /-- The text of an instruction follows from its bytes, and tells its opcode. -/
  described : ∀ o ∈ offsets, c.Described o
  told : ∀ o ∈ offsets, ∀ o' ∈ offsets, c.instructionAt o = c.instructionAt o' →
    c.code[o]? = c.code[o']?
  /-- They are what is counted, what the lines show and what the listing shows as code. -/
  count : c.instructionCount = offsets.length
  lines : c.lines =
    offsets.map fun o => Bytes.hexUpper 4 o ++ utf8 "  " ++ c.instructionAt o
  /-- In the listing the text is filled up to 24 bytes where a source span follows. -/
  listing : ∀ title,
    (utf8 "; Code:\n" ++ offsets.flatMap fun o =>
      Bytes.hexUpper 4 o ++ utf8 "  " ++ c.instructionAt o ++
        match c.spanAt? o with
        | some span =>
          List.replicate (24 - (c.instructionAt o).length) Bytes.blank ++ utf8 " ; src " ++
            Bytes.ofInt span.start ++ utf8 ".." ++ Bytes.ofInt span.stop ++ utf8 "\n"
        | none => utf8 "\n") <:+ c.listing title
  /-- Every machine reads them, up to the one at which it ends. -/
  executed : ∀ m : Machine, c.Follows offsets (m.execute c).1

/-- The line of an instruction in the listing, spelled out. -/
theorem instructionLine_eq (c : Chunk) (i : ListedInstruction) :
    c.instructionLine i =
      Bytes.hexUpper 4 i.offset ++ utf8 "  " ++ i.text ++
        match c.spanAt? i.offset with
        | some span =>
          List.replicate (24 - i.text.length) Bytes.blank ++ utf8 " ; src " ++
            Bytes.ofInt span.start ++ utf8 ".." ++ Bytes.ofInt span.stop ++ utf8 "\n"
        | none => utf8 "\n" := by
  unfold instructionLine
  cases c.spanAt? i.offset with
  | some span => simp only [Bytes.padRight, Bytes.copies, Span.text, List.append_assoc]
  | none => rfl

/-- On every chunk the listing, its lines and its count show the instructions that the
machine reads, whatever the bytes are and however much room the stack has. -/
theorem exists_listed (c : Chunk) : ∃ offsets, c.Listed offsets := by
  obtain ⟨offsets, hvisits⟩ := c.exists_visits 0
  have hinstructions : c.instructions = offsets.map fun o => ⟨o, c.instructionAt o⟩ :=
    hvisits.walk_eq
  refine ⟨offsets, hvisits, hvisits.pairwise, ?_, ?_, ?_, ?_, ?_, ?_, ?_, ?_⟩
  · intro o ho
    exact (lengthAt_bounds (hvisits.lt_of_mem ho)).2
  · intro i hi
    exact hvisits.existsUnique (Nat.zero_le i) hi
  · intro o ho
    exact described (hvisits.lt_of_mem ho)
  · intro o ho o' ho' htext
    exact code_eq_of_instructionAt_eq (hvisits.lt_of_mem ho) (hvisits.lt_of_mem ho') htext
  · rw [instructionCount, hinstructions, List.length_map]
  · rw [lines, hinstructions, List.map_map]
    rfl
  · intro title
    rw [Chunk.listing, hinstructions, List.flatMap_map, List.append_assoc]
    simp only [instructionLine_eq]
    exact List.suffix_append _ _
  · intro m
    exact hvisits.follows []

end Chunk

end Abacus
