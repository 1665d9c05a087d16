import Abacus.Editor.Completion
import Abacus.Proofs.Editor.Ranges
import Abacus.Proofs.Text.Words

/-!
# The word before the cursor

The word to complete is the longest end of a text whose bytes are ASCII letters, digits
and underscores (`Bytes.LongestEnd`).  The prompt and the editor look for it in different
ways, and both find it behind an ASCII character.

* The prompt reads the line glyph by glyph and cuts it one byte behind the start of the
  last glyph that belongs to no word (`splitLastWord_eq`).  This is the end of the glyph
  just if it is one byte long; behind a longer character the rest of the character is
  taken for a part of the word, and nothing is offered (`completeLine_wide`).
* The editor walks back over single bytes and reads each as the character with its number.
  Of the bytes that a character can end with, `0xaa`, `0xb5` and `0xba` are letters then
  (`isWordCode_iff`), and behind a character with such an end the byte is taken for a part
  of the word (`isSuffix_wordBefore`).

Neither offers anything wrong, because the literals are ASCII: no word with another byte is
the start of one (`completions_of_mem`).
-/

namespace Abacus

namespace Bytes

open Glyph

/-! ## The longest end of a text -/

/-- Of the ends of `s` whose bytes are all of a class, `word` is the longest, and `front` is
the rest of `s`. -/
structure LongestEnd (p : UInt8 → Bool) (s front word : Bytes) : Prop where
  split : s = front ++ word
  within : ∀ b ∈ word, p b = true
  longest : ∀ w, w <:+ s → (∀ b ∈ w, p b = true) → w.length ≤ word.length

section LongestEnd

variable {p : UInt8 → Bool} {s before front front' word word' : Bytes}

theorem LongestEnd.stop (h : LongestEnd p s front word) : ∀ b ∈ front.getLast?, p b = false := by
  intro b hb
  obtain ⟨rest, rfl⟩ := List.getLast?_eq_some_iff.mp hb
  by_contra hclass
  have hlonger := h.longest (b :: word) ⟨rest, by simp [h.split]⟩ (by
    intro c hc
    rcases List.mem_cons.mp hc with rfl | hc
    · simpa using hclass
    · exact h.within c hc)
  rw [List.length_cons] at hlonger
  omega

/-- An end of a text is the longest one if the byte before it is of no such class. -/
theorem longestEnd_of_stop (hsplit : s = front ++ word) (hwithin : ∀ b ∈ word, p b = true)
    (hstop : ∀ b ∈ front.getLast?, p b = false) : LongestEnd p s front word := by
  subst hsplit
  refine ⟨rfl, hwithin, ?_⟩
  intro w hw hclass
  by_contra hlonger
  -- A longer end holds the last byte of the front.
  have hsuffix : word <:+ w :=
    List.suffix_of_suffix_length_le (List.suffix_append front word) hw (by omega)
  obtain ⟨extra, rfl⟩ := hsuffix
  obtain ⟨rest, hrest⟩ := hw
  rw [← List.append_assoc] at hrest
  have hfront : front = rest ++ extra := (List.append_cancel_right hrest).symm
  cases hlast : extra.getLast? with
  | none =>
    rw [List.getLast?_eq_none_iff.mp hlast, List.nil_append] at hlonger
    omega
  | some b =>
    have hb : b ∈ front.getLast? := by
      rw [hfront, List.getLast?_append, hlast]
      rfl
    have hmem := hclass b (List.mem_append_left word (List.mem_of_getLast? hlast))
    rw [hstop b hb] at hmem
    cases hmem

theorem LongestEnd.unique (h : LongestEnd p s front word) (h' : LongestEnd p s front' word') :
    front = front' ∧ word = word' := by
  have hlengths : word.length = word'.length :=
    Nat.le_antisymm (h'.longest word ⟨front, h.split.symm⟩ h.within)
      (h.longest word' ⟨front', h'.split.symm⟩ h'.within)
  exact List.append_inj' (h.split.symm.trans h'.split) hlengths

/-- Reading a text from its end finds the longest end. -/
theorem exists_longestEnd (p : UInt8 → Bool) (s : Bytes) :
    ∃ front, LongestEnd p s front (s.reverse.takeWhile p).reverse := by
  obtain ⟨word, front, hsplit, hwithin, hstop, -⟩ := Scan.exists_run p s.reverse
  have hword : s.reverse.takeWhile p = word := by
    rw [hsplit]
    exact Scan.takeWhile_append_eq hwithin hstop
  have hs : s = front.reverse ++ word.reverse := by
    rw [← List.reverse_append, ← hsplit, List.reverse_reverse]
  refine ⟨front.reverse, ?_⟩
  rw [hword]
  refine longestEnd_of_stop hs ?_ ?_
  · intro b hb
    exact List.all_eq_true.mp hwithin b (List.mem_reverse.mp hb)
  · rwa [List.getLast?_reverse]

/-- What stands before a text that ends with no byte of the class changes nothing. -/
theorem LongestEnd.append_left (h : LongestEnd p s front word)
    (hbefore : ∀ b ∈ before.getLast?, p b = false) :
    LongestEnd p (before ++ s) (before ++ front) word := by
  refine longestEnd_of_stop (by rw [h.split, List.append_assoc]) h.within ?_
  intro b hb
  rw [List.getLast?_append] at hb
  cases hlast : front.getLast? with
  | none =>
    rw [hlast, Option.none_or] at hb
    exact hbefore b hb
  | some c =>
    rw [hlast, Option.some_or] at hb
    exact h.stop b (hlast.trans hb)

end LongestEnd

/-! ## Words and glyphs -/

section Words

variable {s front word : Bytes}

theorem head_ascii {b : UInt8} (hb : b.toNat < 0x80) (rest : Bytes) :
    ∃ c : Char, head b rest = .char c ∧ c.toNat = b.toNat := by
  have hvalid : b.toNat.isValidChar := .inl (by omega)
  have hcode : charAt? b rest = charFrom? 0 b.toNat := by
    unfold charAt?
    simp only
    rw [if_pos hb]
  have hchar : charFrom? 0 b.toNat = some (Char.ofNatAux b.toNat hvalid) := by
    rw [charFrom?, if_pos (Nat.zero_le _), dif_pos hvalid]
  exact ⟨_, by rw [head, hcode, hchar], rfl⟩

/-- The bytes of a word are glyphs of their own. -/
theorem glyphs_word (hword : ∀ b ∈ word, isWord b = true) :
    word.glyphs.length = word.length ∧ word.glyphs.all isAsciiWord = true := by
  induction word with
  | nil => exact ⟨rfl, rfl⟩
  | cons b word ih =>
    have hb := hword b List.mem_cons_self
    have hascii := toNat_of_isWord hb
    obtain ⟨hlength, hall⟩ := ih fun c hc => hword c (List.mem_cons_of_mem b hc)
    obtain ⟨c, hhead, hc⟩ := head_ascii hascii word
    have hclass : isAsciiWord (.char c) = true := by
      rw [isAsciiWord, hc, UInt8.ofNat_toNat, hb, Bool.and_true]
      exact decide_eq_true hascii
    rw [glyphs_cons, size_head_ascii hascii, Nat.sub_self, List.drop_zero, hhead, List.length_cons,
      List.length_cons, hlength, List.all_cons, hall, hclass]
    exact ⟨rfl, rfl⟩

theorem glyphs_append_word (hword : ∀ b ∈ word, isWord b = true) (front : Bytes) :
    glyphs (front ++ word) = front.glyphs ++ word.glyphs := by
  cases word with
  | nil =>
    rw [List.append_nil]
    exact (List.append_nil _).symm
  | cons b word =>
    exact glyphs_append_cons (toNat_of_isWord (hword b List.mem_cons_self)) front word

theorem eq_nil_of_glyphs (h : s.glyphs = []) : s = [] := by
  rw [← ofGlyphs_glyphs s, h]
  rfl

/-- A text ends with the bytes of its last glyph. -/
theorem exists_append_bytes {g : Glyph} (hg : g ∈ s.glyphs.getLast?) :
    ∃ front, s = front ++ g.bytes := by
  obtain ⟨gs, hgs⟩ := List.getLast?_eq_some_iff.mp hg
  have hbytes := ofGlyphs_glyphs s
  rw [hgs, ofGlyphs, List.flatMap_append, List.flatMap_singleton] at hbytes
  exact ⟨_, hbytes.symm⟩

/-- A text whose last byte belongs to no word has a last glyph that belongs to none. -/
theorem isAsciiWord_getLast? (hstop : ∀ b ∈ front.getLast?, isWord b = false) :
    ∀ g ∈ front.glyphs.getLast?, isAsciiWord g = false := by
  intro g hg
  obtain ⟨rest, rfl⟩ := exists_append_bytes hg
  cases g with
  | stray b => rfl
  | char c =>
    by_contra hclass
    rw [Bool.not_eq_false, isAsciiWord, Bool.and_eq_true, decide_eq_true_eq] at hclass
    obtain ⟨hascii, hword⟩ := hclass
    have hbytes : (Glyph.char c).bytes = [UInt8.ofNat c.toNat] := by
      show String.utf8EncodeChar c = _
      have hsmall : c.val.toNat ≤ 127 := Nat.le_of_lt_succ hascii
      simp only [String.utf8EncodeChar]
      rw [if_pos hsmall]
      rfl
    have hlast := hstop (UInt8.ofNat c.toNat) (by rw [hbytes, List.getLast?_concat]; rfl)
    rw [hword] at hlast
    cases hlast

end Words

/-! ## The bytes of a character -/

section Encoded

variable {c : Char} {b : UInt8}

/-- A character of several bytes has no ASCII byte. -/
theorem le_toNat_of_mem_encode (hc : 1 < c.utf8Size) (hb : b ∈ String.utf8EncodeChar c) :
    0x80 ≤ b.toNat := by
  have hcode : ¬c.val.toNat ≤ 127 := by
    intro hsmall
    have hone := Char.utf8Size_eq_one_iff.mpr (UInt32.le_iff_toNat_le.mpr hsmall)
    omega
  simp only [String.utf8EncodeChar] at hb
  rw [if_neg hcode] at hb
  split_ifs at hb <;>
    · simp only [List.mem_cons, List.not_mem_nil, or_false] at hb
      rcases hb with rfl | rfl | rfl | rfl <;> simp only [UInt8.toNat_ofNat'] <;> omega

/-- A character ends with an ASCII byte or with a continuation byte. -/
theorem exists_encode_concat (c : Char) :
    ∃ most b, String.utf8EncodeChar c = most ++ [b] ∧ b.toNat < 0xc0 := by
  simp only [String.utf8EncodeChar]
  split_ifs
  · exact ⟨[], _, rfl, by simp only [UInt8.toNat_ofNat']; omega⟩
  · exact ⟨[_], _, rfl, by simp only [UInt8.toNat_ofNat']; omega⟩
  · exact ⟨[_, _], _, rfl, by simp only [UInt8.toNat_ofNat']; omega⟩
  · exact ⟨[_, _, _], _, rfl, by simp only [UInt8.toNat_ofNat']; omega⟩

end Encoded

end Bytes

/-! ## What is offered -/

/-- A word with a byte that is not ASCII starts no literal. -/
theorem completions_of_mem {word : Bytes} {b : UInt8} (hb : b ∈ word) (hwide : 0x80 ≤ b.toNat) :
    completions word = [] := by
  have hascii : literalWords.all (fun w => w.all fun c => c.toNat < 0x80) = true := by decide
  unfold completions
  split
  · rfl
  · rw [List.filter_eq_nil_iff]
    intro w hw hprefix
    have hsmall := List.all_eq_true.mp (List.all_eq_true.mp hascii w hw) b
      ((List.isPrefixOf_iff_prefix.mp hprefix).subset hb)
    rw [decide_eq_true_eq] at hsmall
    omega

theorem completions_eq (word : Bytes) :
    completions word = if word = [] then [] else
      [utf8 "true", utf8 "false"].filter fun w => word.isPrefixOf w := by
  cases word <;> rfl

theorem isPrefix_of_mem_completions {word w : Bytes} (hw : w ∈ completions word) : word <+: w := by
  unfold completions at hw
  split at hw
  · cases hw
  · exact List.isPrefixOf_iff_prefix.mp (List.mem_filter.mp hw).2

namespace Bytes

open Glyph

/-! ## The prompt -/

/-- Whether the last character of a text takes up several bytes. -/
def endsWide (s : Bytes) : Bool :=
  s.glyphs.getLast?.any fun g => 1 < g.size

section Prompt

variable {line front word : Bytes}

/-- A line is cut behind the first byte of its last glyph that belongs to no word. -/
theorem splitLastWord_eq (h : LongestEnd isWord line front word) :
    line.splitLastWord =
      line.splitAt (front.length - (front.glyphs.getLast?.elim 0 fun g => g.size - 1)) := by
  obtain ⟨hlength, hall⟩ := glyphs_word h.within
  have hglyphs : line.glyphs.reverse = word.glyphs.reverse ++ front.glyphs.reverse := by
    rw [h.split, glyphs_append_word h.within, List.reverse_append]
  have htaken : line.glyphs.reverse.takeWhile isAsciiWord = word.glyphs.reverse := by
    rw [hglyphs, List.takeWhile_append_of_pos]
    · cases hlast : front.glyphs.reverse with
      | nil => simp
      | cons g gs =>
        have hg : g ∈ front.glyphs.getLast? := by rw [← List.head?_reverse, hlast]; rfl
        simp [isAsciiWord_getLast? h.stop g hg]
    · intro g hg
      exact List.all_eq_true.mp hall g (List.mem_reverse.mp hg)
  have hdropped : line.glyphs.reverse.drop word.length = front.glyphs.reverse := by
    rw [hglyphs, ← hlength, ← List.length_reverse, List.drop_left]
  have hrest : line.length - word.length = front.length := by
    rw [h.split, List.length_append, Nat.add_sub_cancel]
  unfold splitLastWord
  simp only
  rw [htaken, List.length_reverse, hlength, hdropped, hrest, List.splitAt_eq]
  cases hlast : front.glyphs.reverse with
  | nil =>
    rw [eq_nil_of_glyphs (List.reverse_eq_nil_iff.mp hlast)]
    rfl
  | cons g gs =>
    have hg : front.glyphs.getLast? = some g := by rw [← List.head?_reverse, hlast]; rfl
    rw [hg]
    rfl

/-- Behind a character of one byte, the line is cut before its last word. -/
theorem splitLastWord_narrow (h : LongestEnd isWord line front word)
    (hnarrow : front.endsWide = false) : line.splitLastWord = (front, word) := by
  have hsize : (front.glyphs.getLast?.elim 0 fun g => g.size - 1) = 0 := by
    unfold endsWide at hnarrow
    cases hlast : front.glyphs.getLast? with
    | none => rfl
    | some g =>
      rw [hlast, Option.any_some, decide_eq_false_iff_not] at hnarrow
      show g.size - 1 = 0
      omega
  rw [splitLastWord_eq h, hsize, Nat.sub_zero, List.splitAt_eq, h.split, List.take_left,
    List.drop_left]

/-- Behind a longer character, the last byte of the character comes before the word. -/
theorem exists_mem_splitLastWord (h : LongestEnd isWord line front word)
    (hwide : front.endsWide = true) : ∃ b ∈ line.splitLastWord.2, 0x80 ≤ b.toNat := by
  obtain ⟨g, hg, hsize⟩ := (Option.any_eq_true _ _).mp hwide
  rw [decide_eq_true_eq] at hsize
  cases g with
  | stray b => exact absurd hsize (Nat.lt_irrefl 1)
  | char c =>
    obtain ⟨rest, hrest⟩ := exists_append_bytes (Option.mem_def.mpr hg)
    obtain ⟨most, b, hmost, -⟩ := exists_encode_concat c
    refine ⟨b, ?_, le_toNat_of_mem_encode hsize (by simp [hmost])⟩
    have hfront : front = rest ++ most ++ [b] := by
      rw [hrest, List.append_assoc, ← hmost]
      rfl
    have hkept : front.length - ((Glyph.char c).size - 1) ≤ (rest ++ most).length := by
      rw [hfront, List.length_append, List.length_singleton]
      omega
    have hline : line = rest ++ most ++ b :: word := by
      rw [h.split, hfront, List.append_assoc _ [b], List.singleton_append]
    rw [splitLastWord_eq h, hg, List.splitAt_eq]
    show b ∈ line.drop (front.length - ((Glyph.char c).size - 1))
    rw [hline, List.drop_append_of_le_length hkept]
    simp

end Prompt

end Bytes

section Prompt

variable {line front word : Bytes}

theorem completeLine_narrow (h : Bytes.LongestEnd Bytes.isWord line front word)
    (hnarrow : front.endsWide = false) :
    completeLine line = (completions word).map (front ++ ·) := by
  simp only [completeLine, Bytes.splitLastWord_narrow h hnarrow]

theorem completeLine_wide (h : Bytes.LongestEnd Bytes.isWord line front word)
    (hwide : front.endsWide = true) : completeLine line = [] := by
  obtain ⟨b, hb, hbyte⟩ := Bytes.exists_mem_splitLastWord h hwide
  simp only [completeLine, completions_of_mem hb hbyte, List.map_nil]

/-- A line is completed to what its last word can be completed to, unless the character
before the word takes up several bytes.  In any case it is only continued. -/
theorem completeLine_lastWord (h : Bytes.LongestEnd Bytes.isWord line front word) :
    completeLine line =
        (if word = [] ∨ front.endsWide then []
        else ([utf8 "true", utf8 "false"].filter fun w => word.isPrefixOf w).map (front ++ ·)) ∧
      ∀ s ∈ completeLine line, line <+: s := by
  cases hwide : front.endsWide with
  | true =>
    rw [completeLine_wide h hwide]
    simp
  | false =>
    rw [completeLine_narrow h hwide]
    constructor
    · rw [completions_eq]
      by_cases hword : word = [] <;> simp [hword]
    · intro s hs
      obtain ⟨w, hw, rfl⟩ := List.mem_map.mp hs
      rw [h.split]
      exact (List.prefix_append_right_inj front).mpr (isPrefix_of_mem_completions hw)

end Prompt

/-- Behind `é`, and a blank, the word `f` is completed. -/
theorem completeLine_lastWord_blank :
    Bytes.LongestEnd Bytes.isWord (utf8 "é f") (utf8 "é ") (utf8 "f") ∧
      completeLine (utf8 "é f") = [utf8 "é false"] := by
  have hcut : Bytes.LongestEnd Bytes.isWord (utf8 "é f") (utf8 "é ") (utf8 "f") :=
    Bytes.longestEnd_of_stop rfl (by decide +kernel) (by decide +kernel)
  refine ⟨hcut, (completeLine_lastWord hcut).1.trans ?_⟩
  decide

/-- Directly behind `é`, the word `tr` is not completed. -/
theorem completeLine_behind_wide :
    Bytes.LongestEnd Bytes.isWord (utf8 "étr") (utf8 "é") (utf8 "tr") ∧
      utf8 "tr" <+: utf8 "true" ∧ completeLine (utf8 "étr") = [] := by
  have hcut : Bytes.LongestEnd Bytes.isWord (utf8 "étr") (utf8 "é") (utf8 "tr") :=
    Bytes.longestEnd_of_stop rfl (by decide +kernel) (by decide +kernel)
  exact ⟨hcut, by decide, by decide⟩

/-! ## The editor -/

section Letters

variable {ranges : List (Nat × Nat)} {code bound n : Nat} {b : UInt8}

/-- Ranges that start behind a character number do not hold it. -/
theorem inRanges_take (hrest : ∀ r ∈ ranges.drop n, bound ≤ r.1) (hcode : code < bound) :
    inRanges ranges code = inRanges (ranges.take n) code := by
  have hnone : inRanges (ranges.drop n) code = false := by
    rw [inRanges, List.any_eq_false]
    intro r hr
    have hstart := hrest r hr
    rw [Bool.and_eq_true, decide_eq_true_eq, decide_eq_true_eq]
    omega
  have hsplit := congrArg (inRanges · code) (List.take_append_drop n ranges)
  simp only [inRanges, List.any_append] at hsplit hnone ⊢
  rw [← hsplit, hnone, Bool.or_false]

/-- The bytes that a character can end with and that are letters when they are read as
characters of their own: `ª`, `µ` and `º`. -/
def letterEnds : List UInt8 := [0xaa, 0xb5, 0xba]

/-- Below the first bytes of characters, only these are letters beside the ASCII ones. -/
theorem isWordCode_iff (hb : b.toNat < 0xc0) :
    isWordCode b = true ↔ Bytes.isWord b = true ∨ b ∈ letterEnds := by
  have hletter : isLetterCode b.toNat =
      inRanges [(0x41, 0x5a), (0x61, 0x7a), (0xaa, 0xaa), (0xb5, 0xb5), (0xba, 0xba)] b.toNat :=
    inRanges_take (n := 5) (by decide +kernel) hb
  have hdigit : isDigitCode b.toNat = inRanges [(0x30, 0x39)] b.toNat :=
    inRanges_take (n := 1) (by decide +kernel) hb
  rw [isWordCode, hletter, hdigit]
  simp only [inRanges, Bytes.isWord, Bytes.isLetter, Bytes.isDigit, letterEnds, List.any_cons,
    List.any_nil, Bool.or_false, Bool.or_eq_true, Bool.and_eq_true, decide_eq_true_eq,
    List.mem_cons, List.not_mem_nil, or_false, UInt8.le_iff_toNat_le, ← UInt8.toNat_inj,
    UInt8.toNat_ofNat]
  omega

end Letters

namespace Bytes

open Glyph

/-- The part of its line that stands before a position. -/
def lineBefore (text : Bytes) (p : Position) : Bytes :=
  afterLast newline (text.take (text.offsetAt p))

/-- Whether the last byte of a text is a letter when it is read as a character of its own,
though it ends a longer character. -/
def endsInLetter (s : Bytes) : Bool :=
  s.getLast?.any fun b => b ∈ letterEnds

section Editor

variable {text front word : Bytes} {p : Position}

/-- A position stands between two glyphs of its text. -/
theorem exists_lineBefore (text : Bytes) (p : Position) :
    ∃ (before : Bytes) (gs : List Glyph),
      text.offsetAt p = before.length + (text.lineBefore p).length ∧
      text.glyphs = before.glyphs ++ (text.lineBefore p).glyphs ++ gs := by
  have hboundary := isBoundary_offsetAt text p
  obtain ⟨before, front, back, after, hline, ho⟩ := exists_lineOf hboundary.1
  have hbefore : text.lineBefore p = front := by
    rw [lineBefore, ho, hline.take_eq, afterLast_line hline.opens hline.inside_front]
  rw [ho, hline.isBoundary_iff] at hboundary
  refine ⟨before, back.glyphs ++ after.glyphs, by rw [hbefore, ho], ?_⟩
  rw [hbefore, hline.split, glyphs_opened hline.opens, glyphs_closed hline.closes, hboundary]
  simp only [List.append_assoc]

/-- The walk of the editor finds the longest end of the line before the position, by its
own rule for what belongs to a word. -/
theorem exists_longestEnd_wordBefore (text : Bytes) (p : Position) :
    ∃ front, LongestEnd isWordCode (text.lineBefore p) front (text.wordBefore p) := by
  obtain ⟨before, line, htake, hopens, hinside⟩ := exists_split_last (text.take (text.offsetAt p))
  have hline : text.lineBefore p = line := by
    rw [lineBefore, htake, afterLast_line hopens hinside]
  obtain ⟨front, hend⟩ := exists_longestEnd isWordCode line
  have hclass : ∀ b ∈ before.getLast?, isWordCode b = false := by
    intro b hb
    rw [hopens b hb]
    decide +kernel
  have hwhole := hend.append_left hclass
  rw [← htake] at hwhole
  obtain ⟨front', hfound⟩ := exists_longestEnd isWordCode (text.take (text.offsetAt p))
  refine ⟨front, ?_⟩
  rw [hline, show text.wordBefore p = _ from (hfound.unique hwhole).2]
  exact hend

/-- Valid text ends with an ASCII byte or a continuation byte. -/
theorem toNat_getLast?_of_isChar (hchars : ∀ g ∈ front.glyphs, g.isChar = true) :
    ∀ b ∈ front.getLast?, b.toNat < 0xc0 := by
  intro b hb
  cases hlast : front.glyphs.getLast? with
  | none =>
    rw [eq_nil_of_glyphs (List.getLast?_eq_none_iff.mp hlast)] at hb
    cases hb
  | some g =>
    have hchar := hchars g (List.mem_of_getLast? hlast)
    cases g with
    | stray b => cases hchar
    | char c =>
      obtain ⟨rest, hrest⟩ := exists_append_bytes (Option.mem_def.mpr hlast)
      obtain ⟨most, b', hmost, hsmall⟩ := exists_encode_concat c
      have hb' : front.getLast? = some b' := by
        rw [hrest, show (Glyph.char c).bytes = _ from hmost, ← List.append_assoc,
          List.getLast?_concat]
      obtain rfl : b' = b := Option.some.inj (hb'.symm.trans hb)
      exact hsmall

theorem isWordCode_of_isWord {b : UInt8} (hb : isWord b = true) : isWordCode b = true := by
  have hascii := toNat_of_isWord hb
  exact (isWordCode_iff (by omega)).mpr (.inl hb)

/-- A word before which no byte counts as a letter is found. -/
theorem wordBefore_eq (h : LongestEnd isWord (text.lineBefore p) front word)
    (hstop : ∀ b ∈ front.getLast?, isWordCode b = false) : text.wordBefore p = word := by
  obtain ⟨rest, hfound⟩ := exists_longestEnd_wordBefore text p
  have hword : LongestEnd isWordCode (text.lineBefore p) front word :=
    longestEnd_of_stop h.split (fun b hb => isWordCode_of_isWord (h.within b hb)) hstop
  exact (hfound.unique hword).2

/-- A byte before the word that counts as a letter is taken for a part of it. -/
theorem isSuffix_wordBefore {b : UInt8} (h : LongestEnd isWord (text.lineBefore p) front word)
    (hb : b ∈ front.getLast?) (hletter : isWordCode b = true) :
    b :: word <:+ text.wordBefore p := by
  obtain ⟨rest, hfound⟩ := exists_longestEnd_wordBefore text p
  obtain ⟨most, rfl⟩ := List.getLast?_eq_some_iff.mp hb
  have hend : b :: word <:+ text.lineBefore p :=
    ⟨most, by rw [h.split, List.append_assoc, List.singleton_append]⟩
  have hclass : ∀ c ∈ b :: word, isWordCode c = true := by
    intro c hc
    rcases List.mem_cons.mp hc with rfl | hc
    · exact hletter
    · exact isWordCode_of_isWord (h.within c hc)
  exact List.suffix_of_suffix_length_le hend ⟨rest, hfound.split.symm⟩
    (hfound.longest _ hend hclass)

/-- The last word of the line before a position is read as alone, between two glyphs. -/
theorem isStop_lastWord (h : LongestEnd isWord (text.lineBefore p) front word) :
    text.IsStop (text.offsetAt p - word.length) := by
  obtain ⟨before, gs, ho, hglyphs⟩ := exists_lineBefore text p
  rw [h.split, glyphs_append_word h.within] at hglyphs
  refine mem_stops.mpr ⟨before.glyphs ++ front.glyphs, word.glyphs ++ gs, ?_, ?_⟩
  · rw [hglyphs]
    simp only [List.append_assoc]
  · rw [totalSize_append, totalSize_glyphs, totalSize_glyphs, ho, h.split, List.length_append]
    omega

/-- In valid text, the bytes that count as letters before a word are known. -/
theorem isWordCode_getLast?_iff (hutf8 : text.isUtf8 = true)
    (h : LongestEnd isWord (text.lineBefore p) front word) {b : UInt8} (hb : b ∈ front.getLast?) :
    isWordCode b = true ↔ b ∈ letterEnds := by
  obtain ⟨before, gs, -, hglyphs⟩ := exists_lineBefore text p
  rw [h.split, glyphs_append_word h.within] at hglyphs
  have hchars : ∀ g ∈ front.glyphs, g.isChar = true := by
    intro g hg
    refine List.all_eq_true.mp hutf8 g ?_
    rw [hglyphs]
    simp [hg]
  rw [isWordCode_iff (toNat_getLast?_of_isChar hchars b hb), h.stop b hb]
  simp

end Editor

end Bytes

/-- In valid text, the word before a position starts between two characters.  It is found
and completed unless the character before it ends with one of three bytes. -/
theorem wordBefore_lastWord {text front word : Bytes} {p : Position} (hutf8 : text.isUtf8 = true)
    (h : Bytes.LongestEnd Bytes.isWord (text.lineBefore p) front word) :
    text.IsStop (text.offsetAt p - word.length) ∧
      (text.wordBefore p = word ↔ front.endsInLetter = false) ∧
      (∃ rest, Bytes.LongestEnd isWordCode (text.lineBefore p) rest (text.wordBefore p)) ∧
      completions (text.wordBefore p) =
        if word = [] ∨ front.endsInLetter then []
        else [utf8 "true", utf8 "false"].filter fun w => word.isPrefixOf w := by
  refine ⟨Bytes.isStop_lastWord h, ?_⟩
  cases hends : front.endsInLetter with
  | false =>
    have hfound : text.wordBefore p = word := by
      refine Bytes.wordBefore_eq h ?_
      intro b hb
      rw [Bytes.endsInLetter, Option.mem_def.mp hb, Option.any_some,
        decide_eq_false_iff_not] at hends
      exact Bool.eq_false_iff.mpr (mt (Bytes.isWordCode_getLast?_iff hutf8 h hb).mp hends)
    refine ⟨by simp [hfound], Bytes.exists_longestEnd_wordBefore text p, ?_⟩
    rw [hfound, completions_eq]
    simp
  | true =>
    obtain ⟨b, hb, hmem⟩ := (Option.any_eq_true _ _).mp hends
    rw [decide_eq_true_eq] at hmem
    have hsuffix := Bytes.isSuffix_wordBefore h hb
      ((Bytes.isWordCode_getLast?_iff hutf8 h hb).mpr hmem)
    have hlonger : text.wordBefore p ≠ word := by
      intro heq
      have hlength := hsuffix.length_le
      rw [heq, List.length_cons] at hlength
      omega
    have hwide : 0x80 ≤ b.toNat := by
      simp only [letterEnds, List.mem_cons, List.not_mem_nil, or_false] at hmem
      rcases hmem with rfl | rfl | rfl <;> decide
    refine ⟨by simp [hlonger], Bytes.exists_longestEnd_wordBefore text p, ?_⟩
    rw [completions_of_mem (hsuffix.subset List.mem_cons_self) hwide]
    simp

/-- Behind `é`, the word `tr` is found and completed. -/
theorem wordBefore_lastWord_acute :
    (utf8 "1;\nétr").isUtf8 = true ∧ (utf8 "1;\nétr").wordBefore ⟨1, 3⟩ = utf8 "tr" ∧
      completions ((utf8 "1;\nétr").wordBefore ⟨1, 3⟩) = [utf8 "true"] := by
  have hutf8 : (utf8 "1;\nétr").isUtf8 = true := by decide
  have hcut : Bytes.LongestEnd Bytes.isWord ((utf8 "1;\nétr").lineBefore ⟨1, 3⟩) (utf8 "é")
      (utf8 "tr") :=
    Bytes.longestEnd_of_stop rfl (by decide +kernel) (by decide +kernel)
  obtain ⟨-, hfound, -, hoffered⟩ := wordBefore_lastWord hutf8 hcut
  exact ⟨hutf8, hfound.mpr (by decide), hoffered.trans (by decide)⟩

/-- Behind `₪`, whose last byte is the number of a letter, the word that is found starts
inside of this character, and nothing is offered. -/
theorem wordBefore_behind_sheqel :
    (utf8 "₪tr").isUtf8 = true ∧
      Bytes.LongestEnd Bytes.isWord ((utf8 "₪tr").lineBefore ⟨0, 3⟩) (utf8 "₪") (utf8 "tr") ∧
      (utf8 "₪tr").wordBefore ⟨0, 3⟩ = 0xaa :: utf8 "tr" ∧
      ¬(utf8 "₪tr").IsStop ((utf8 "₪tr").offsetAt ⟨0, 3⟩ - (0xaa :: utf8 "tr").length) ∧
      utf8 "tr" <+: utf8 "true" ∧ completions ((utf8 "₪tr").wordBefore ⟨0, 3⟩) = [] := by
  have hcut : Bytes.LongestEnd Bytes.isWord ((utf8 "₪tr").lineBefore ⟨0, 3⟩) (utf8 "₪")
      (utf8 "tr") :=
    Bytes.longestEnd_of_stop rfl (by decide +kernel) (by decide +kernel)
  exact ⟨by decide, hcut, by decide +kernel, by decide, by decide, by decide +kernel⟩

end Abacus
