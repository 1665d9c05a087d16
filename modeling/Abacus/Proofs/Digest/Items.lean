import Abacus.Digest.Cbor
import Mathlib.Algebra.Group.Nat.Defs
import Mathlib.Tactic.SplitIfs

/-!
# Encoded items can be told apart

An encoded item says where it ends, so items can stand one behind another
without anything between them.  The head of an item does it: its first byte gives
the major type and how many bytes of the number follow.

* `head_eq` writes a head as that byte and the bytes behind it;
* `head_append_inj` reads a head off the front of any text.  The number is known
  modulo `2 ^ 64` only, which is all that a head has room for;
* `number_append_inj`, `byteString_append_inj` and `array_append_inj` do the same
  for whole items.
-/

namespace Abacus

/-- An encoding that can be told from whatever stands behind it. -/
def SelfDelimiting {α : Type} (encode : α → Bytes) : Prop :=
  ∀ ⦃a b : α⦄ ⦃x y : Bytes⦄, encode a ++ x = encode b ++ y → a = b ∧ x = y

/-- As many encodings in a row as on the other side are told apart one by one. -/
theorem SelfDelimiting.flatten {α : Type} {encode : α → Bytes} (h : SelfDelimiting encode)
    {as bs : List α} {x y : Bytes} (hlength : as.length = bs.length)
    (heq : (as.map encode).flatten ++ x = (bs.map encode).flatten ++ y) : as = bs ∧ x = y := by
  induction as generalizing bs with
  | nil =>
    cases bs with
    | nil => exact ⟨rfl, heq⟩
    | cons b bs => simp at hlength
  | cons a as ih =>
    cases bs with
    | nil => simp at hlength
    | cons b bs =>
      simp only [List.map_cons, List.flatten_cons, List.append_assoc] at heq
      obtain ⟨rfl, hrest⟩ := h heq
      obtain ⟨rfl, hxy⟩ := ih (by simpa using hlength) hrest
      exact ⟨rfl, hxy⟩

namespace Cbor

/-! ## Numbers in bytes -/

@[simp] theorem length_bigEndian (count n : Nat) : (bigEndian count n).length = count := by
  induction count generalizing n with
  | zero => rfl
  | succ count ih => simp [bigEndian, ih]

/-- The bytes give the number as far as they reach. -/
theorem mod_eq_of_bigEndian_eq {count n m : Nat} (h : bigEndian count n = bigEndian count m) :
    n % 256 ^ count = m % 256 ^ count := by
  induction count generalizing n m with
  | zero => simp [Nat.mod_one]
  | succ count ih =>
    rw [bigEndian, bigEndian] at h
    obtain ⟨hhigh, hlow⟩ := List.append_inj h (by simp)
    have hbyte : n % 256 = m % 256 := by
      have hnat := congrArg UInt8.toNat (List.cons.inj hlow).1
      simpa [UInt8.toNat_ofNat'] using hnat
    rw [Nat.pow_succ', Nat.mod_mul, Nat.mod_mul, hbyte, ih hhigh]

/-! ## Heads -/

/-- The five low bits of a head: the number itself where it is small, and
otherwise a mark for the bytes that follow. -/
def info (n : Nat) : Nat :=
  if n < 24 then n
  else if n < 0x100 then 24
  else if n < 0x10000 then 25
  else if n < 0x100000000 then 26
  else 27

/-- How many bytes follow a head with the given low bits. -/
def width (low : Nat) : Nat :=
  if low < 24 then 0 else 2 ^ (low - 24)

theorem info_lt (n : Nat) : info n < 28 := by
  unfold info
  split_ifs <;> omega

theorem head_eq (major : Major) (n : Nat) :
    head major n = UInt8.ofNat (major.code * 32 + info n) :: bigEndian (width (info n)) n := by
  unfold head info
  split_ifs <;> simp [width, bigEndian, *]

theorem toNat_lead (major : Major) (n : Nat) :
    (UInt8.ofNat (major.code * 32 + info n)).toNat = major.code * 32 + info n := by
  have hinfo := info_lt n
  have hcode : major.code ≤ 5 := by cases major <;> simp [Major.code]
  rw [UInt8.toNat_ofNat']
  omega

theorem length_head_le (major : Major) (n : Nat) : (head major n).length ≤ 9 := by
  have hinfo := info_lt n
  have hwidth : width (info n) ≤ 2 ^ 3 := by
    unfold width
    split_ifs
    · omega
    · exact Nat.pow_le_pow_right (by omega) (by omega)
  rw [head_eq, List.length_cons, length_bigEndian]
  omega

theorem Major.code_inj {major major' : Major} (h : major.code = major'.code) : major = major' := by
  cases major <;> cases major' <;> simp_all [Major.code]

theorem eq_info_of_lt {n : Nat} (h : info n < 24) : n = info n := by
  unfold info at h ⊢
  split_ifs at h ⊢ <;> omega

theorem lt_pow_width {n : Nat} (h₁ : 24 ≤ info n) (h₂ : info n < 27) :
    n < 256 ^ width (info n) := by
  unfold info at h₁ h₂ ⊢
  split_ifs at h₁ h₂ ⊢ <;> simp [width] <;> omega

/-- Low bits that agree, with the bytes behind them, give the number modulo
`2 ^ 64`. -/
theorem mod_eq_of_info_eq {n m : Nat} (hinfo : info n = info m)
    (hbytes : n % 256 ^ width (info n) = m % 256 ^ width (info n)) :
    n % 2 ^ 64 = m % 2 ^ 64 := by
  by_cases hsmall : info n < 24
  · have hn := eq_info_of_lt hsmall
    have hm := eq_info_of_lt (hinfo ▸ hsmall)
    rw [hn, hm, hinfo]
  · by_cases hlarge : info n < 27
    · have hn := lt_pow_width (by omega) hlarge
      have hm := lt_pow_width (n := m) (by omega) (by omega)
      rw [← hinfo] at hm
      rw [Nat.mod_eq_of_lt hn, Nat.mod_eq_of_lt hm] at hbytes
      rw [hbytes]
    · have hlast : info n = 27 := by
        have := info_lt n
        omega
      rw [hlast] at hbytes
      exact hbytes

/-- A head is read off the front of a text. -/
theorem head_append_inj {major major' : Major} {n m : Nat} {x y : Bytes}
    (h : head major n ++ x = head major' m ++ y) :
    major = major' ∧ n % 2 ^ 64 = m % 2 ^ 64 ∧ x = y := by
  rw [head_eq, head_eq, List.cons_append, List.cons_append] at h
  obtain ⟨hlead, hrest⟩ := List.cons.inj h
  have hsum : major.code * 32 + info n = major'.code * 32 + info m := by
    rw [← toNat_lead major n, hlead, toNat_lead]
  have hn := info_lt n
  have hm := info_lt m
  have hmajor : major = major' := Major.code_inj (by omega)
  have hinfo : info n = info m := by omega
  obtain ⟨hbytes, hxy⟩ := List.append_inj hrest (by simp [hinfo])
  rw [← hinfo] at hbytes
  exact ⟨hmajor, mod_eq_of_info_eq hinfo (mod_eq_of_bigEndian_eq hbytes), hxy⟩

/-! ## Items -/

theorem number_append_inj {n m : Nat} (hn : n < 2 ^ 64) (hm : m < 2 ^ 64) {x y : Bytes}
    (h : number n ++ x = number m ++ y) : n = m ∧ x = y := by
  obtain ⟨-, hmod, hxy⟩ := head_append_inj h
  rw [Nat.mod_eq_of_lt hn, Nat.mod_eq_of_lt hm] at hmod
  exact ⟨hmod, hxy⟩

/-- Byte strings are read off the front of a text, if their lengths are known to
agree when they do so modulo `2 ^ 64`. -/
theorem byteString_append_inj {s t x y : Bytes}
    (hlength : s.length % 2 ^ 64 = t.length % 2 ^ 64 → s.length = t.length)
    (h : byteString s ++ x = byteString t ++ y) : s = t ∧ x = y := by
  rw [byteString, byteString, List.append_assoc, List.append_assoc] at h
  obtain ⟨-, hmod, hrest⟩ := head_append_inj h
  exact List.append_inj hrest (hlength hmod)

theorem array_append_inj {α : Type} {encode : α → Bytes} (hencode : SelfDelimiting encode)
    {as bs : List α} (has : as.length < 2 ^ 64) (hbs : bs.length < 2 ^ 64) {x y : Bytes}
    (h : array (as.map encode) ++ x = array (bs.map encode) ++ y) : as = bs ∧ x = y := by
  rw [array, array, List.append_assoc, List.append_assoc, List.length_map, List.length_map] at h
  obtain ⟨-, hmod, hrest⟩ := head_append_inj h
  rw [Nat.mod_eq_of_lt has, Nat.mod_eq_of_lt hbs] at hmod
  exact hencode.flatten hmod hrest

/-- A byte string is not null. -/
theorem byteString_append_ne_null (s x y : Bytes) : byteString s ++ x ≠ null ++ y := by
  intro h
  rw [byteString, head_eq, null, List.cons_append, List.cons_append] at h
  have hlead : Major.bytes.code * 32 + info s.length = 0xf6 := by
    rw [← toNat_lead, (List.cons.inj h).1]
    rfl
  have hcode : Major.bytes.code = 2 := rfl
  have hinfo := info_lt s.length
  omega

end Cbor

end Abacus
