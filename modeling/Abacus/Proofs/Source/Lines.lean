import Abacus.Proofs.Scan.Longest
import Abacus.Source.Line

/-!
# The lines of a text

`Bytes.LineOf` cuts a text around one of its lines: what stands before the line ends
with a line end or is empty, the line itself holds none, and what stands behind it
starts with one or is empty.  Every offset lies in such a line (`exists_lineOf`), and
there is one for each number up to the number of line ends (`exists_lineOf_count`).

What the functions on lines compute is read off from such a cut: how far an offset is
from the start of its line, how many lines there are before it, and where the line ends.
-/

namespace Abacus

namespace Bytes

/-- One line of a text, with what stands before and behind it. -/
structure LineOf (text before line after : Bytes) : Prop where
  split : text = before ++ (line ++ after)
  opens : ∀ b ∈ before.getLast?, b = newline
  inside : newline ∉ line
  closes : ∀ b ∈ after.head?, b = newline

section Runs

variable {before front after : Bytes}

theorem takeWhile_line (hinside : newline ∉ front) (hcloses : ∀ b ∈ after.head?, b = newline) :
    (front ++ after).takeWhile (· ≠ newline) = front := by
  refine Scan.takeWhile_append_eq (Scan.all_ne_of_not_mem hinside) ?_
  intro b hb
  rw [hcloses b hb]
  exact decide_eq_false (fun h => h rfl)

theorem afterLast_line (hopens : ∀ b ∈ before.getLast?, b = newline) (hinside : newline ∉ front) :
    afterLast newline (before ++ front) = front := by
  have hrun : (front.reverse ++ before.reverse).takeWhile (· ≠ newline) = front.reverse :=
    takeWhile_line (by rwa [List.mem_reverse]) (by rwa [List.head?_reverse])
  rw [afterLast, List.reverse_append, hrun, List.reverse_reverse]

theorem tailLength_line (hopens : ∀ b ∈ before.getLast?, b = newline) (hinside : newline ∉ front) :
    tailLength (before ++ front) = front.length := by
  have hlast := congrArg List.length (afterLast_line hopens hinside)
  rwa [afterLast, List.length_reverse] at hlast

end Runs

/-! ## Cutting a text around a line -/

/-- A text splits before the first of its line ends. -/
theorem exists_split_first (s : Bytes) :
    ∃ back after, s = back ++ after ∧ newline ∉ back ∧ ∀ b ∈ after.head?, b = newline := by
  obtain ⟨back, after, rfl, hback, hafter, -⟩ :=
    Scan.exists_run (fun b => decide (b ≠ newline)) s
  refine ⟨back, after, rfl, ?_, ?_⟩
  · intro hmem
    simpa using List.all_eq_true.mp hback _ hmem
  · intro b hb
    simpa using hafter b hb

/-- A text splits behind the last of its line ends. -/
theorem exists_split_last (s : Bytes) :
    ∃ before front, s = before ++ front ∧ (∀ b ∈ before.getLast?, b = newline) ∧
      newline ∉ front := by
  obtain ⟨back, after, hsplit, hback, hafter⟩ := exists_split_first s.reverse
  refine ⟨after.reverse, back.reverse, ?_, ?_, ?_⟩
  · rw [← List.reverse_append, ← hsplit, List.reverse_reverse]
  · rwa [List.getLast?_reverse]
  · rwa [List.mem_reverse]

/-- Every offset of a text lies in a line. -/
theorem exists_lineOf {text : Bytes} {o : Nat} (ho : o ≤ text.length) :
    ∃ before front back after, LineOf text before (front ++ back) after ∧
      o = before.length + front.length := by
  obtain ⟨before, front, htake, hopens, hfront⟩ := exists_split_last (text.take o)
  obtain ⟨back, after, hdrop, hback, hcloses⟩ := exists_split_first (text.drop o)
  refine ⟨before, front, back, after, ⟨?_, hopens, ?_, hcloses⟩, ?_⟩
  · rw [List.append_assoc, ← hdrop, ← List.append_assoc, ← htake, List.take_append_drop]
  · simp [hfront, hback]
  · rw [← List.length_append, ← htake, List.length_take, Nat.min_eq_left ho]

theorem exists_opening {s : Bytes} {n : Nat} (h : n ≤ s.count newline) :
    ∃ before rest, s = before ++ rest ∧ (∀ b ∈ before.getLast?, b = newline) ∧
      before.count newline = n := by
  induction s generalizing n with
  | nil =>
    obtain rfl : n = 0 := by simpa using h
    exact ⟨[], [], rfl, by simp, rfl⟩
  | cons b s ih =>
    cases n with
    | zero => exact ⟨[], b :: s, rfl, by simp, rfl⟩
    | succ n =>
      by_cases hb : b = newline
      · subst hb
        rw [List.count_cons_self] at h
        obtain ⟨before, rest, rfl, hopens, hcount⟩ := ih (by omega : n ≤ s.count newline)
        refine ⟨newline :: before, rest, rfl, ?_, by rw [List.count_cons_self, hcount]⟩
        cases before with
        | nil => simp
        | cons c before => simpa using hopens
      · rw [List.count_cons_of_ne hb] at h
        obtain ⟨before, rest, rfl, hopens, hcount⟩ := ih h
        cases before with
        | nil => cases hcount
        | cons c before =>
          refine ⟨b :: c :: before, rest, rfl, by simpa using hopens, ?_⟩
          rw [List.count_cons_of_ne hb, hcount]

/-- There is a line for each number up to the number of line ends. -/
theorem exists_lineOf_count {text : Bytes} {n : Nat} (h : n ≤ text.count newline) :
    ∃ before line after, LineOf text before line after ∧ before.count newline = n := by
  obtain ⟨before, rest, rfl, hopens, hcount⟩ := exists_opening h
  obtain ⟨line, after, rfl, hinside, hcloses⟩ := exists_split_first rest
  exact ⟨before, line, after, ⟨rfl, hopens, hinside, hcloses⟩, hcount⟩

namespace LineOf

variable {text before line front back after : Bytes}

theorem length_eq (h : LineOf text before line after) :
    text.length = before.length + line.length + after.length := by
  rw [h.split, List.length_append, List.length_append, Nat.add_assoc]

theorem take_eq (h : LineOf text before (front ++ back) after) :
    text.take (before.length + front.length) = before ++ front := by
  rw [h.split, List.append_assoc, ← List.append_assoc, ← List.length_append, List.take_left]

theorem drop_eq (h : LineOf text before (front ++ back) after) :
    text.drop (before.length + front.length) = back ++ after := by
  rw [h.split, List.append_assoc, ← List.append_assoc, ← List.length_append, List.drop_left]

theorem inside_front (h : LineOf text before (front ++ back) after) : newline ∉ front :=
  fun hmem => h.inside (List.mem_append_left _ hmem)

theorem inside_back (h : LineOf text before (front ++ back) after) : newline ∉ back :=
  fun hmem => h.inside (List.mem_append_right _ hmem)

theorem tailLength_take (h : LineOf text before (front ++ back) after) :
    tailLength (text.take (before.length + front.length)) = front.length := by
  rw [h.take_eq, tailLength_line h.opens h.inside_front]

theorem count_take (h : LineOf text before (front ++ back) after) :
    (text.take (before.length + front.length)).count newline = before.count newline := by
  rw [h.take_eq, List.count_append, List.count_eq_zero.mpr h.inside_front, Nat.add_zero]

theorem clamp_eq (h : LineOf text before (front ++ back) after) :
    text.clamp ((before.length + front.length : Nat) : Int) = before.length + front.length := by
  have hlength := h.length_eq
  rw [List.length_append] at hlength
  rw [clamp, Int.toNat_natCast, if_pos (by omega)]

theorem place_eq (h : LineOf text before (front ++ back) after) :
    text.place (before.length + front.length : Nat) =
      ⟨before.count newline + 1, front.length + 1⟩ := by
  rw [place, h.clamp_eq, h.count_take, h.tailLength_take]

theorem slice_eq (h : LineOf text before (front ++ back) after) :
    text.slice before.length (before.length + front.length) = front := by
  rw [slice, h.split, List.drop_left, List.append_assoc, Nat.add_sub_cancel_left, List.take_left]

/-- The byte before the end of a line is its last one. -/
theorem getLast?_iff (h : LineOf text before line after) {b : UInt8} :
    (before.length < before.length + line.length ∧
      text[before.length + line.length - 1]? = some b) ↔ line.getLast? = some b := by
  cases hlast : line.getLast? with
  | none =>
    rw [List.getLast?_eq_none_iff.mp hlast]
    simp
  | some c =>
    obtain ⟨front, rfl⟩ := List.getLast?_eq_some_iff.mp hlast
    have hindex : before.length + (front ++ [c]).length - 1 = before.length + front.length := by
      rw [List.length_append, List.length_singleton]
      omega
    rw [hindex, h.split, List.getElem?_append_right (by omega), Nat.add_sub_cancel_left,
      List.append_assoc, List.getElem?_append_right (Nat.le_refl _), Nat.sub_self]
    simp

/-- The ends of a line leave out the carriage return that it may end with. -/
theorem lineBounds_eq (h : LineOf text before (front ++ back) after) :
    ∃ line ending, front ++ back = line ++ ending ∧
      (ending = [0x0d] ∨ ending = [] ∧ line.getLast? ≠ some 0x0d) ∧
      text.lineBounds (before.length + front.length : Nat) =
        (before.length, before.length + line.length) := by
  have hlength : lineLength (back ++ after) = back.length := by
    rw [lineLength, takeWhile_line h.inside_back h.closes]
  have hstop : before.length + front.length + back.length =
      before.length + (front ++ back).length := by
    rw [List.length_append, Nat.add_assoc]
  rw [lineBounds, h.clamp_eq, h.tailLength_take, h.drop_eq, hlength, Nat.add_sub_cancel, hstop]
  generalize front ++ back = whole at h ⊢
  by_cases hreturn : whole.getLast? = some 0x0d
  · obtain ⟨line, rfl⟩ := List.getLast?_eq_some_iff.mp hreturn
    refine ⟨line, [0x0d], rfl, .inl rfl, ?_⟩
    rw [if_pos (h.getLast?_iff.mpr hreturn), List.length_append, List.length_singleton,
      ← Nat.add_assoc, Nat.add_sub_cancel]
  · refine ⟨whole, [], (List.append_nil _).symm, .inr ⟨rfl, hreturn⟩, ?_⟩
    rw [if_neg (mt h.getLast?_iff.mp hreturn)]

end LineOf

end Bytes

end Abacus
