import Mathlib.Tactic.SplitIfs
import Abacus.Text.Utf8

/-!
# The glyph at the head of a text

A glyph is read from the bytes that it takes up: `Glyph.bytes_head_isPrefix` says
that they stand at the head of the text.  Which glyph stands there depends on
bytes of characters only, so an ASCII byte behind a text changes none of its
glyphs (`Glyph.head_append`).
-/

namespace Abacus

namespace Glyph

section Decoding

variable {b : UInt8} {rest : Bytes} {c : Char}

theorem payload?_eq_some {p : Nat} (h : payload? b = some p) :
    0x80 ≤ b.toNat ∧ b.toNat ≤ 0xbf ∧ b.toNat = p + 0x80 := by
  unfold payload? at h
  split at h
  · next hb =>
    rw [UInt8.le_iff_toNat_le, UInt8.le_iff_toNat_le] at hb
    have hlow : 0x80 ≤ b.toNat := hb.1
    have hhigh : b.toNat ≤ 0xbf := hb.2
    have hp : b.toNat - 0x80 = p := Option.some.inj h
    omega
  · cases h

theorem charFrom?_eq_some {least code : Nat} (h : charFrom? least code = some c) :
    least ≤ code ∧ c.val.toNat = code := by
  unfold charFrom? at h
  by_cases hleast : least ≤ code
  · rw [if_pos hleast] at h
    by_cases hvalid : code.isValidChar
    · rw [dif_pos hvalid] at h
      cases h
      exact ⟨hleast, rfl⟩
    · rw [dif_neg hvalid] at h
      cases h
  · rw [if_neg hleast] at h
    cases h

theorem ofNat_eq {n : Nat} (h : n = b.toNat) : UInt8.ofNat n = b := by
  rw [h, UInt8.ofNat_toNat]

/-- A character is read from its own bytes. -/
theorem encode_prefix_of_charAt? (h : charAt? b rest = some c) :
    String.utf8EncodeChar c <+: b :: rest := by
  unfold charAt? at h
  simp only at h
  split_ifs at h with h1 h2 h3 h4 h5
  · obtain ⟨-, hc⟩ := charFrom?_eq_some h
    have hcode : String.utf8EncodeChar c = [b] := by
      simp only [String.utf8EncodeChar]
      rw [if_pos (by omega), ofNat_eq hc]
    rw [hcode]
    exact ⟨rest, rfl⟩
  · match rest, h with
    | b1 :: tail, h =>
      simp only [Option.bind_eq_bind, Option.bind_eq_some_iff] at h
      obtain ⟨p1, hp1, h⟩ := h
      obtain ⟨hlow, hhigh, hb1⟩ := payload?_eq_some hp1
      obtain ⟨hleast, hc⟩ := charFrom?_eq_some h
      have hcode : String.utf8EncodeChar c = [b, b1] := by
        simp only [String.utf8EncodeChar]
        rw [if_neg (by omega), if_pos (by omega), ofNat_eq (b := b) (by omega),
          ofNat_eq (b := b1) (by omega)]
      rw [hcode]
      exact ⟨tail, rfl⟩
  · match rest, h with
    | b1 :: b2 :: tail, h =>
      simp only [Option.bind_eq_bind, Option.bind_eq_some_iff] at h
      obtain ⟨p1, hp1, p2, hp2, h⟩ := h
      obtain ⟨hlow1, hhigh1, hb1⟩ := payload?_eq_some hp1
      obtain ⟨hlow2, hhigh2, hb2⟩ := payload?_eq_some hp2
      obtain ⟨hleast, hc⟩ := charFrom?_eq_some h
      have hcode : String.utf8EncodeChar c = [b, b1, b2] := by
        simp only [String.utf8EncodeChar]
        rw [if_neg (by omega), if_neg (by omega), if_pos (by omega), ofNat_eq (b := b) (by omega),
          ofNat_eq (b := b1) (by omega), ofNat_eq (b := b2) (by omega)]
      rw [hcode]
      exact ⟨tail, rfl⟩
  · match rest, h with
    | b1 :: b2 :: b3 :: tail, h =>
      simp only [Option.bind_eq_bind, Option.bind_eq_some_iff] at h
      obtain ⟨p1, hp1, p2, hp2, p3, hp3, h⟩ := h
      obtain ⟨hlow1, hhigh1, hb1⟩ := payload?_eq_some hp1
      obtain ⟨hlow2, hhigh2, hb2⟩ := payload?_eq_some hp2
      obtain ⟨hlow3, hhigh3, hb3⟩ := payload?_eq_some hp3
      obtain ⟨hleast, hc⟩ := charFrom?_eq_some h
      have hcode : String.utf8EncodeChar c = [b, b1, b2, b3] := by
        simp only [String.utf8EncodeChar]
        rw [if_neg (by omega), if_neg (by omega), if_neg (by omega),
          ofNat_eq (b := b) (by omega), ofNat_eq (b := b1) (by omega),
          ofNat_eq (b := b2) (by omega), ofNat_eq (b := b3) (by omega)]
      rw [hcode]
      exact ⟨tail, rfl⟩

theorem payload?_ascii (hb : b.toNat < 0x80) : payload? b = none := by
  cases h : payload? b with
  | none => rfl
  | some p =>
    have hlow := (payload?_eq_some h).1
    omega

/-- An ASCII byte behind a text is no part of a longer character. -/
theorem charAt?_append {a : UInt8} (ha : a.toNat < 0x80) (more : Bytes) :
    charAt? b (rest ++ a :: more) = charAt? b rest := by
  have hnone := payload?_ascii ha
  unfold charAt?
  simp only
  split_ifs
  · rfl
  · rfl
  · rcases rest with _ | ⟨b1, tail⟩
    · simp [hnone]
    · rfl
  · rcases rest with _ | ⟨b1, _ | ⟨b2, tail⟩⟩
    · rcases more with _ | ⟨m1, more⟩ <;> simp [hnone]
    · simp [hnone]
    · rfl
  · rcases rest with _ | ⟨b1, _ | ⟨b2, _ | ⟨b3, tail⟩⟩⟩
    · rcases more with _ | ⟨m1, _ | ⟨m2, more⟩⟩ <;> simp [hnone]
    · rcases more with _ | ⟨m1, more⟩ <;> simp [hnone]
    · simp [hnone]
    · rfl
  · rfl

end Decoding

section Head

variable (b : UInt8) (rest : Bytes)

theorem size_eq_length (g : Glyph) : g.size = g.bytes.length := by
  cases g with
  | char c => exact (String.length_utf8EncodeChar c).symm
  | stray b => rfl

theorem size_pos (g : Glyph) : 0 < g.size := by
  cases g with
  | char c => exact Char.utf8Size_pos c
  | stray b => exact Nat.one_pos

theorem bytes_head_isPrefix : (head b rest).bytes <+: b :: rest := by
  unfold head
  split
  · next c hc => exact encode_prefix_of_charAt? hc
  · exact ⟨rest, rfl⟩

theorem head_append {a : UInt8} (ha : a.toNat < 0x80) (more : Bytes) :
    head b (rest ++ a :: more) = head b rest := by
  unfold head
  rw [charAt?_append ha]

end Head

end Glyph

end Abacus
