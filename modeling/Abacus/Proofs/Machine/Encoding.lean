import Abacus.Machine.Fingerprint
import Abacus.Proofs.Digest.Items
import Mathlib.Data.List.Forall2

/-!
# What a fingerprint is made of

The fingerprint of a chunk is the digest of `Chunk.encoded`.  Here it is shown
that this text tells chunks apart: it gives back whether there is code, the code,
and the kind and bits of every constant, and it holds nothing else.

`encoded_inj` asks that the lengths of the two codes agree if they agree modulo
`2 ^ 64`.  Lengths below `2 ^ 64` do.  So do those of two chunks with few
constants, whatever their lengths are, since their texts are equally long
(`encoded_inj_of_indexed`).
-/

namespace Abacus

namespace Kind

theorem code_lt (k : Kind) : k.code < 2 ^ 64 := by
  cases k <;> simp [code]

theorem code_inj {k l : Kind} (h : k.code = l.code) : k = l := by
  cases k <;> cases l <;> first | rfl | contradiction

end Kind

namespace Value

/-- A value is known by its kind and its bits. -/
theorem eq_of_kind_of_bits {v w : Value} (hkind : v.kind = w.kind) (hbits : v.bits = w.bits) :
    v = w := by
  cases v <;> cases w <;> first | contradiction | skip
  case untagged.untagged => rfl
  case int.int i j => exact congrArg int (Int32.toBitVec.inj (congrArg UInt32.toBitVec hbits))
  case float.float x y => exact congrArg float (Binary32.mk.injEq .. ▸ hbits)
  case bool.bool b c => cases b <;> cases c <;> first | rfl | contradiction

theorem encoded_eq (v : Value) :
    v.encoded = 0x82 :: (Cbor.number v.kind.code ++ Cbor.number v.bits.toNat) := by
  have harray : Cbor.head .array 2 = [0x82] := by decide
  simp [encoded, Cbor.array, harray]

theorem selfDelimiting_encoded : SelfDelimiting encoded := by
  intro v w x y h
  rw [encoded_eq, encoded_eq, List.cons_append, List.cons_append, List.append_assoc,
    List.append_assoc] at h
  obtain ⟨hkind, h⟩ :=
    Cbor.number_append_inj v.kind.code_lt w.kind.code_lt (List.cons.inj h).2
  have hlt (u : Value) : u.bits.toNat < 2 ^ 64 := Nat.lt_trans u.bits.toNat_lt (by decide)
  obtain ⟨hbits, hxy⟩ := Cbor.number_append_inj (hlt v) (hlt w) h
  exact ⟨eq_of_kind_of_bits (Kind.code_inj hkind) (UInt32.toNat_inj.mp hbits), hxy⟩

theorem length_encoded_le (v : Value) : v.encoded.length ≤ 19 := by
  have hkind : (Cbor.number v.kind.code).length ≤ 9 := Cbor.length_head_le ..
  have hbits : (Cbor.number v.bits.toNat).length ≤ 9 := Cbor.length_head_le ..
  rw [encoded_eq, List.length_cons, List.length_append]
  omega

end Value

namespace Chunk

/-- The item that stands for the code. -/
def codeItem (c : Chunk) : Bytes :=
  match c.code? with
  | some code => Cbor.byteString code
  | none => Cbor.null

/-- The item that stands for the constants. -/
def constantsItem (c : Chunk) : Bytes :=
  Cbor.array (c.constants.map Value.encoded)

theorem encoded_eq (c : Chunk) :
    c.encoded = 0xa2 :: 0x01 :: (c.codeItem ++ 0x02 :: c.constantsItem) := by
  have hmap : Cbor.head .map 2 = [0xa2] := by decide
  have hone : Cbor.number 1 = [0x01] := by decide
  have htwo : Cbor.number 2 = [0x02] := by decide
  show Cbor.map [(Cbor.number 1, c.codeItem), (Cbor.number 2, c.constantsItem)] = _
  simp [Cbor.map, hmap, hone, htwo]

/-- The code is read off the front of a text, if the lengths of the codes are
known to agree. -/
theorem codeItem_append_inj {c d : Chunk} {x y : Bytes}
    (hlength : c.code.length % 2 ^ 64 = d.code.length % 2 ^ 64 → c.code.length = d.code.length)
    (h : c.codeItem ++ x = d.codeItem ++ y) : c.code? = d.code? ∧ x = y := by
  unfold codeItem at h
  unfold code at hlength
  cases hc : c.code? with
  | none =>
    cases hd : d.code? with
    | none =>
      rw [hc, hd] at h
      exact ⟨rfl, List.append_cancel_left h⟩
    | some t =>
      rw [hc, hd] at h
      exact absurd h.symm (Cbor.byteString_append_ne_null t y x)
  | some s =>
    cases hd : d.code? with
    | none =>
      rw [hc, hd] at h
      exact absurd h (Cbor.byteString_append_ne_null s x y)
    | some t =>
      rw [hc, hd] at h hlength
      obtain ⟨rfl, hxy⟩ := Cbor.byteString_append_inj hlength h
      exact ⟨rfl, hxy⟩

theorem encoded_inj {c d : Chunk}
    (hlength : c.code.length % 2 ^ 64 = d.code.length % 2 ^ 64 → c.code.length = d.code.length)
    (hc : c.constants.length < 2 ^ 64) (hd : d.constants.length < 2 ^ 64)
    (h : c.encoded = d.encoded) : c.code? = d.code? ∧ c.constants = d.constants := by
  rw [encoded_eq, encoded_eq] at h
  obtain ⟨hcode, hrest⟩ := codeItem_append_inj hlength (List.cons.inj (List.cons.inj h).2).2
  have hitem := congrArg (· ++ []) (List.cons.inj hrest).2
  exact ⟨hcode, (Cbor.array_append_inj Value.selfDelimiting_encoded hc hd hitem).1⟩

/-! ## Chunks with few constants -/

theorem length_constantsItem_le (c : Chunk) :
    c.constantsItem.length ≤ 9 + 19 * c.constants.length := by
  have hhead : (Cbor.head .array (c.constants.map Value.encoded).length).length ≤ 9 :=
    Cbor.length_head_le ..
  have hitems : (c.constants.map Value.encoded).flatten.length ≤ 19 * c.constants.length := by
    induction c.constants with
    | nil => simp
    | cons v vs ih =>
      have hv := v.length_encoded_le
      simp only [List.map_cons, List.flatten_cons, List.length_append, List.length_cons]
      omega
  rw [constantsItem, Cbor.array, List.length_append]
  omega

theorem length_codeItem (c : Chunk) :
    c.code.length ≤ c.codeItem.length ∧ c.codeItem.length ≤ c.code.length + 9 := by
  unfold codeItem code
  cases c.code? with
  | none => simp [Cbor.null]
  | some s =>
    have hhead := Cbor.length_head_le .bytes s.length
    simp only [Cbor.byteString, List.length_append, Option.getD_some]
    omega

/-- Chunks whose constants have indices of one byte are told apart, however long
their code is: texts of one length leave no room for lengths that differ by
`2 ^ 64`. -/
theorem encoded_inj_of_indexed {c d : Chunk} (hc : c.constants.length ≤ maxConstants)
    (hd : d.constants.length ≤ maxConstants) (h : c.encoded = d.encoded) :
    c.code? = d.code? ∧ c.constants = d.constants := by
  have hmax : maxConstants = 256 := rfl
  refine encoded_inj (fun hmod => ?_) (by omega) (by omega) h
  have htotal := congrArg List.length h
  simp only [encoded_eq, List.length_cons, List.length_append] at htotal
  have hcode := c.length_codeItem
  have hcode' := d.length_codeItem
  have hitems := c.length_constantsItem_le
  have hitems' := d.length_constantsItem_le
  omega

/-! ## All chunks -/

/-- The texts of two chunks agree just if both have code or both have none, the
code is the same, and so are the kind and the bits of every constant.  Spans and
limits have no part in it. -/
theorem encoded_eq_iff {c d : Chunk} (hc : c.code.length < 2 ^ 64) (hd : d.code.length < 2 ^ 64)
    (hcs : c.constants.length < 2 ^ 64) (hds : d.constants.length < 2 ^ 64) :
    c.encoded = d.encoded ↔
      (c.code? = none ↔ d.code? = none) ∧ c.code = d.code ∧
        List.Forall₂ (fun v w => v.kind = w.kind ∧ v.bits = w.bits) c.constants d.constants := by
  constructor
  · intro h
    obtain ⟨hcode, hconstants⟩ := encoded_inj (by omega) hcs hds h
    refine ⟨by rw [hcode], by rw [code, code, hcode], ?_⟩
    rw [hconstants, List.forall₂_same]
    exact fun v _ => ⟨rfl, rfl⟩
  · rintro ⟨hnone, hcode, hconstants⟩
    have hcode? : c.code? = d.code? := by
      unfold code at hcode
      cases hc? : c.code? <;> cases hd? : d.code? <;> simp_all
    have hvalues : c.constants = d.constants := by
      refine List.forall₂_eq_eq_eq ▸ hconstants.imp fun v w hvw => ?_
      exact Value.eq_of_kind_of_bits hvw.1 hvw.2
    rw [encoded, encoded, hcode?, hvalues]

/-- A recorded span and another limit change nothing, but the truth value with the
bits of a number does. -/
theorem encoded_eq_iff_constant :
    let c : Chunk :=
      { Chunk.empty with
        code? := some [0x10, 0x00, 0xf0], constants := [.int 1], locations := [⟨0, ⟨0, 1⟩⟩] }
    let d : Chunk :=
      { Chunk.withLimit 8 with code? := some [0x10, 0x00, 0xf0], constants := [.int 1] }
    let e : Chunk := { d with constants := [.bool true] }
    c.encoded = d.encoded ∧ c.encoded ≠ e.encoded := by
  intro c d e
  have hd := encoded_eq_iff (c := c) (d := d) (by decide) (by decide) (by decide) (by decide)
  have he := encoded_eq_iff (c := c) (d := e) (by decide) (by decide) (by decide) (by decide)
  refine ⟨hd.mpr ⟨Iff.rfl, rfl, .cons ⟨rfl, rfl⟩ .nil⟩, fun h => ?_⟩
  obtain ⟨-, -, hconstants⟩ := he.mp h
  cases hconstants with
  | cons hkind _ => exact absurd hkind.1 (by decide)

end Chunk

end Abacus
