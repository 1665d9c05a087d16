import Abacus.Proofs.Text.Glyphs

/-!
# Where reading stops

Reading a text glyph by glyph stops before each glyph and at the end
(`Bytes.IsStop`).  At such an offset the text can be cut, and the two parts are read
as they were in the whole text (`isStop_iff`).  This is because a glyph is read from
its own bytes: the text behind it neither makes nor breaks it (`Glyph.head_of_fits`).

An ASCII byte is a glyph of its own wherever it stands, so reading stops on both
sides of it (`glyphs_append_cons`).
-/

namespace Abacus

namespace Glyph

/-! ## The bytes of one glyph -/

/-- How many bytes of a character follow its first byte. -/
def following (b : UInt8) : Nat :=
  if b.toNat < 0xc2 then 0
  else if b.toNat < 0xe0 then 1
  else if b.toNat < 0xf0 then 2
  else if b.toNat < 0xf5 then 3
  else 0

section Head

variable {b : UInt8} {rest : Bytes} {c : Char}

/-- Only the bytes of the character itself are looked at. -/
theorem charAt?_take (b : UInt8) (rest : Bytes) :
    charAt? b (rest.take (following b)) = charAt? b rest := by
  unfold charAt? following
  simp only
  split_ifs
  · rfl
  · rfl
  · rcases rest with _ | ⟨b1, tail⟩ <;> rfl
  · rcases rest with _ | ⟨b1, _ | ⟨b2, tail⟩⟩ <;> rfl
  · rcases rest with _ | ⟨b1, _ | ⟨b2, _ | ⟨b3, tail⟩⟩⟩ <;> rfl
  · rfl

theorem utf8Size_of_charAt? (h : charAt? b rest = some c) : c.utf8Size = following b + 1 := by
  have hsize : ∀ n, c.val.toNat = n → c.utf8Size =
      if n ≤ 0x7f then 1 else if n ≤ 0x7ff then 2 else if n ≤ 0xffff then 3 else 4 := by
    rintro _ rfl
    rfl
  unfold charAt? at h
  simp only at h
  split_ifs at h with h1 h2 h3 h4 h5
  · obtain ⟨-, hc⟩ := charFrom?_eq_some h
    rw [hsize _ hc, if_pos (by omega), following, if_pos (by omega)]
  · match rest, h with
    | b1 :: tail, h =>
      simp only [Option.bind_eq_bind, Option.bind_eq_some_iff] at h
      obtain ⟨p1, hp1, h⟩ := h
      obtain ⟨hlow, hhigh, hb1⟩ := payload?_eq_some hp1
      obtain ⟨hleast, hc⟩ := charFrom?_eq_some h
      rw [hsize _ hc, if_neg (by omega), if_pos (by omega), following, if_neg h2, if_pos h3]
  · match rest, h with
    | b1 :: b2 :: tail, h =>
      simp only [Option.bind_eq_bind, Option.bind_eq_some_iff] at h
      obtain ⟨p1, hp1, p2, hp2, h⟩ := h
      obtain ⟨hlow1, hhigh1, hb1⟩ := payload?_eq_some hp1
      obtain ⟨hlow2, hhigh2, hb2⟩ := payload?_eq_some hp2
      obtain ⟨hleast, hc⟩ := charFrom?_eq_some h
      rw [hsize _ hc, if_neg (by omega), if_neg (by omega), if_pos (by omega), following,
        if_neg h2, if_neg h3, if_pos h4]
  · match rest, h with
    | b1 :: b2 :: b3 :: tail, h =>
      simp only [Option.bind_eq_bind, Option.bind_eq_some_iff] at h
      obtain ⟨p1, hp1, p2, hp2, p3, hp3, h⟩ := h
      obtain ⟨hleast, hc⟩ := charFrom?_eq_some h
      rw [hsize _ hc, if_neg (by omega), if_neg (by omega), if_neg (by omega), following,
        if_neg h2, if_neg h3, if_neg h4, if_pos h5]

theorem size_head_le (b : UInt8) (rest : Bytes) : (head b rest).size ≤ rest.length + 1 := by
  rw [size_eq_length]
  exact (bytes_head_isPrefix b rest).length_le

/-- A glyph that fits into a text stands there already without what follows the text. -/
theorem head_of_fits (b : UInt8) (rest more : Bytes)
    (h : (head b (rest ++ more)).size ≤ rest.length + 1) :
    head b rest = head b (rest ++ more) := by
  suffices heq : charAt? b rest = charAt? b (rest ++ more) by
    unfold head
    rw [heq]
  by_cases hroom : following b ≤ rest.length
  · rw [← charAt?_take b rest, ← charAt?_take b (rest ++ more), List.take_append_of_le_length hroom]
  · -- A character would need more bytes than there are.
    have hleft : charAt? b rest = none := by
      cases hc : charAt? b rest with
      | none => rfl
      | some c =>
        have hsize := utf8Size_of_charAt? hc
        have hle := (encode_prefix_of_charAt? hc).length_le
        rw [String.length_utf8EncodeChar, List.length_cons] at hle
        omega
    have hright : charAt? b (rest ++ more) = none := by
      cases hc : charAt? b (rest ++ more) with
      | none => rfl
      | some c =>
        have hsize := utf8Size_of_charAt? hc
        have hhead : head b (rest ++ more) = .char c := by rw [head, hc]
        rw [hhead] at h
        have hle : c.utf8Size ≤ rest.length + 1 := h
        omega
    rw [hleft, hright]

theorem size_head_ascii (hb : b.toNat < 0x80) (rest : Bytes) : (head b rest).size = 1 := by
  cases hc : charAt? b rest with
  | none => rw [head, hc, size]
  | some c =>
    have hsize := utf8Size_of_charAt? hc
    rw [following, if_pos (by omega)] at hsize
    rw [head, hc]
    exact hsize

theorem units16_pos (g : Glyph) : 0 < g.units16 := by
  cases g with
  | char c =>
    show 0 < if c.toNat < 0x10000 then 1 else 2
    split <;> omega
  | stray b => exact Nat.one_pos

theorem units16_le_size (g : Glyph) : g.units16 ≤ g.size := by
  cases g with
  | char c =>
    have hpos := Char.utf8Size_pos c
    show (if c.toNat < 0x10000 then 1 else 2) ≤ c.utf8Size
    by_cases hnarrow : c.toNat < 0x10000
    · rw [if_pos hnarrow]
      exact hpos
    · have hfour : c.utf8Size = 4 := by
        show (if c.toNat ≤ 0x7f then 1 else if c.toNat ≤ 0x7ff then 2 else
          if c.toNat ≤ 0xffff then 3 else 4) = 4
        rw [if_neg (by omega), if_neg (by omega), if_neg (by omega)]
      rw [if_neg hnarrow]
      omega
  | stray b => exact Nat.le_refl _

end Head

/-- How many bytes some glyphs take up. -/
def totalSize : List Glyph → Nat
  | [] => 0
  | g :: gs => g.size + totalSize gs

/-- How many UTF-16 units some glyphs count for. -/
def totalUnits : List Glyph → Nat
  | [] => 0
  | g :: gs => g.units16 + totalUnits gs

section Totals

variable (g : Glyph) (gs hs : List Glyph)

@[simp] theorem totalSize_nil : totalSize [] = 0 := rfl

@[simp] theorem totalSize_cons : totalSize (g :: gs) = g.size + totalSize gs := rfl

@[simp] theorem totalSize_append : totalSize (gs ++ hs) = totalSize gs + totalSize hs := by
  induction gs with
  | nil => rw [List.nil_append, totalSize_nil, Nat.zero_add]
  | cons g gs ih => rw [List.cons_append, totalSize_cons, totalSize_cons, ih, Nat.add_assoc]

@[simp] theorem totalUnits_cons : totalUnits (g :: gs) = g.units16 + totalUnits gs := rfl

theorem totalUnits_le_totalSize : totalUnits gs ≤ totalSize gs := by
  induction gs with
  | nil => exact Nat.le_refl _
  | cons g gs ih =>
    have hle := g.units16_le_size
    rw [totalUnits_cons, totalSize_cons]
    omega

end Totals

/-- The offsets before each of some glyphs, and the one behind the last. -/
def stops : List Glyph → List Nat
  | [] => [0]
  | g :: gs => 0 :: (stops gs).map (g.size + ·)

theorem mem_stops {gs : List Glyph} {n : Nat} :
    n ∈ stops gs ↔ ∃ front back, gs = front ++ back ∧ n = totalSize front := by
  induction gs generalizing n with
  | nil =>
    simp only [stops, List.mem_singleton]
    constructor
    · rintro rfl
      exact ⟨[], [], rfl, rfl⟩
    · rintro ⟨front, back, hsplit, rfl⟩
      obtain ⟨rfl, -⟩ := List.append_eq_nil_iff.mp hsplit.symm
      rfl
  | cons g gs ih =>
    simp only [stops, List.mem_cons, List.mem_map, ih]
    constructor
    · rintro (rfl | ⟨m, ⟨front, back, rfl, rfl⟩, rfl⟩)
      · exact ⟨[], g :: gs, rfl, rfl⟩
      · exact ⟨g :: front, back, rfl, (totalSize_cons g front).symm⟩
    · rintro ⟨front, back, hsplit, rfl⟩
      cases front with
      | nil => exact .inl rfl
      | cons h front =>
        obtain ⟨rfl, rfl⟩ := List.cons.inj hsplit
        exact .inr ⟨totalSize front, ⟨front, back, rfl, rfl⟩, (totalSize_cons g front).symm⟩

end Glyph

namespace Bytes

open Glyph

/-! ## Cutting a text -/

/-- Reading the text stops at the offset. -/
def IsStop (s : Bytes) (n : Nat) : Prop :=
  n ∈ stops s.glyphs

instance (s : Bytes) (n : Nat) : Decidable (s.IsStop n) :=
  inferInstanceAs (Decidable (n ∈ stops s.glyphs))

section Cutting

variable {s front back : Bytes} {gs hs : List Glyph} {n : Nat}

theorem glyphsFrom_skip (skip : Nat) (s : Bytes) : glyphsFrom skip s = glyphs (s.drop skip) := by
  induction skip generalizing s with
  | zero => rfl
  | succ skip ih =>
    cases s with
    | nil => rfl
    | cons b s =>
      rw [glyphsFrom, ih, List.drop_succ_cons]

theorem glyphs_cons (b : UInt8) (s : Bytes) :
    glyphs (b :: s) = head b s :: glyphs (s.drop ((head b s).size - 1)) := by
  rw [glyphs, glyphsFrom, glyphsFrom_skip]

/-- Induction over the glyphs of a text, from front to back. -/
theorem glyphs_induction {motive : Bytes → Prop} (nil : motive [])
    (cons : ∀ b s, motive (s.drop ((head b s).size - 1)) → motive (b :: s)) (s : Bytes) :
    motive s := by
  induction hlength : s.length using Nat.strongRecOn generalizing s with
  | ind n ih =>
    cases s with
    | nil => exact nil
    | cons b s =>
      refine cons b s (ih _ ?_ _ rfl)
      rw [← hlength, List.length_cons, List.length_drop]
      omega

/-- The glyphs take up all bytes of a text. -/
theorem totalSize_glyphs (s : Bytes) : totalSize s.glyphs = s.length := by
  induction s using glyphs_induction with
  | nil => rfl
  | cons b s ih =>
    have hpos := (head b s).size_pos
    have hle := size_head_le b s
    rw [glyphs_cons, totalSize_cons, ih, List.length_drop, List.length_cons]
    omega

/-- A text that is cut between two glyphs is read as before the cut. -/
theorem glyphs_take_drop (h : s.glyphs = gs ++ hs) :
    glyphs (s.take (totalSize gs)) = gs ∧ glyphs (s.drop (totalSize gs)) = hs := by
  induction gs generalizing s with
  | nil => exact ⟨rfl, h⟩
  | cons g gs ih =>
    cases s with
    | nil => cases h
    | cons b s =>
      rw [glyphs_cons, List.cons_append, List.cons.injEq] at h
      obtain ⟨rfl, hrest⟩ := h
      obtain ⟨htake, hdrop⟩ := ih hrest
      have hpos := (head b s).size_pos
      have hle := size_head_le b s
      have htotal := congrArg totalSize hrest
      rw [totalSize_glyphs, totalSize_append, List.length_drop] at htotal
      obtain ⟨k, hk⟩ : ∃ k, (head b s).size = k + 1 := ⟨(head b s).size - 1, by omega⟩
      rw [hk, Nat.add_sub_cancel] at htake hdrop htotal
      have hcut : totalSize (head b s :: gs) = k + totalSize gs + 1 := by
        rw [totalSize_cons, hk]
        omega
      -- The glyph at the head fits into what is taken.
      have hhead : head b (s.take (k + totalSize gs)) = head b s := by
        have hfits := head_of_fits b (s.take (k + totalSize gs)) (s.drop (k + totalSize gs))
        rw [List.take_append_drop, hk, List.length_take] at hfits
        exact hfits (by omega)
      rw [hcut, List.take_succ_cons, List.drop_succ_cons, glyphs_cons, hhead, hk,
        Nat.add_sub_cancel, List.drop_take, Nat.add_sub_cancel_left, htake, ← List.drop_drop]
      exact ⟨rfl, hdrop⟩

/-- Reading stops at an offset just if the text can be cut there. -/
theorem isStop_iff :
    s.IsStop n ↔ n ≤ s.length ∧ s.glyphs = glyphs (s.take n) ++ glyphs (s.drop n) := by
  rw [IsStop, mem_stops]
  constructor
  · rintro ⟨gs, hs, hsplit, rfl⟩
    obtain ⟨htake, hdrop⟩ := glyphs_take_drop hsplit
    have htotal := totalSize_glyphs s
    rw [hsplit, totalSize_append] at htotal
    rw [htake, hdrop]
    exact ⟨by omega, hsplit⟩
  · rintro ⟨hle, hsplit⟩
    refine ⟨_, _, hsplit, ?_⟩
    rw [totalSize_glyphs, List.length_take, Nat.min_eq_left hle]

theorem isStop_zero (s : Bytes) : s.IsStop 0 :=
  isStop_iff.mpr ⟨Nat.zero_le _, rfl⟩

theorem isStop_length (s : Bytes) : s.IsStop s.length := by
  rw [isStop_iff, List.take_length, List.drop_length]
  exact ⟨Nat.le_refl _, (List.append_nil _).symm⟩

/-- Two texts that are joined can be cut apart just if each of them is read as alone. -/
theorem isStop_length_iff :
    IsStop (front ++ back) front.length ↔ glyphs (front ++ back) = front.glyphs ++ back.glyphs := by
  rw [isStop_iff, List.take_left, List.drop_left, List.length_append]
  exact and_iff_right (Nat.le_add_right _ _)

theorem isStop_append (h : glyphs (front ++ back) = front.glyphs ++ back.glyphs) :
    IsStop (front ++ back) (front.length + n) ↔ back.IsStop n := by
  constructor
  · intro hstop
    obtain ⟨hle, hcut⟩ := isStop_iff.mp hstop
    rw [List.length_append] at hle
    obtain ⟨gs, hs, hsplit, htotal⟩ := mem_stops.mp hstop
    rw [h] at hsplit
    have hfront := totalSize_glyphs front
    rcases List.append_eq_append_iff.mp hsplit with ⟨mid, hgs, hback⟩ | ⟨mid, hmid, hhs⟩
    · rw [hgs, totalSize_append] at htotal
      exact mem_stops.mpr ⟨mid, hs, hback, by omega⟩
    · -- The cut lies in the front, so at its very end.
      rw [hmid, totalSize_append] at hfront
      obtain rfl : n = 0 := by omega
      exact isStop_zero back
  · intro hstop
    obtain ⟨gs, hs, hsplit, rfl⟩ := mem_stops.mp hstop
    refine mem_stops.mpr ⟨front.glyphs ++ gs, hs, ?_, ?_⟩
    · rw [h, hsplit, List.append_assoc]
    · rw [totalSize_append, totalSize_glyphs]

/-- Reading goes on behind a stop as from the start of a text. -/
theorem IsStop.add {m : Nat} (h : s.IsStop n) (hm : IsStop (s.drop n) m) : s.IsStop (n + m) := by
  obtain ⟨hle, hcut⟩ := isStop_iff.mp h
  have hjoined : glyphs (s.take n ++ s.drop n) = glyphs (s.take n) ++ glyphs (s.drop n) := by
    rw [List.take_append_drop, hcut]
  have hstop := (isStop_append hjoined).mpr hm
  rwa [List.take_append_drop, List.length_take, Nat.min_eq_left hle] at hstop

/-! ## ASCII bytes -/

/-- A text is read up to an ASCII byte as without it. -/
theorem glyphs_append_cons {a : UInt8} (ha : a.toNat < 0x80) (front back : Bytes) :
    glyphs (front ++ a :: back) = front.glyphs ++ glyphs (a :: back) := by
  induction front using glyphs_induction with
  | nil => rfl
  | cons b s ih =>
    have hle := size_head_le b s
    have hskip : (head b s).size - 1 ≤ s.length := by omega
    rw [List.cons_append, glyphs_cons, head_append b s ha, List.drop_append_of_le_length hskip, ih,
      glyphs_cons b s, List.cons_append]

/-- An ASCII byte is a glyph of its own. -/
theorem glyphs_ascii_cons {a : UInt8} (ha : a.toNat < 0x80) (back : Bytes) :
    glyphs ([a] ++ back) = glyphs [a] ++ back.glyphs := by
  have hsize := size_head_ascii ha back
  have hhead : head a [] = head a back := head_of_fits a [] back (Nat.le_of_eq hsize)
  rw [List.singleton_append, glyphs_cons, glyphs_cons, hhead, hsize]
  rfl

theorem isStop_before_ascii {a : UInt8} (ha : a.toNat < 0x80) (front back : Bytes) :
    IsStop (front ++ a :: back) front.length :=
  (isStop_append (glyphs_append_cons ha front back) (n := 0)).mpr (isStop_zero _)

theorem isStop_behind_ascii {a : UInt8} (ha : a.toNat < 0x80) (front back : Bytes) :
    IsStop (front ++ a :: back) (front.length + 1) :=
  (isStop_append (glyphs_append_cons ha front back)).mpr
    ((isStop_append (glyphs_ascii_cons ha back) (n := 0)).mpr (isStop_zero _))

end Cutting

end Bytes

end Abacus
