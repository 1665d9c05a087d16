import Abacus.Proofs.Grammar.Leaves
import Abacus.Proofs.Typing.Soundness

/-!
# When an expression fits into a chunk

A chunk takes the numbers of an expression as constants, one after another, and has two
bytes of code for each of them, one for each truth value and each operator, and one for
the return.  `emit_eq_error` says which number does not fit when there are too many, and
`generate_cases` how generating code ends, by the two limits.  So `compile` fails for
want of room exactly where a count says that it must.
-/

namespace Abacus

namespace Expr

/-! ## Counting -/

theorem literals_eq_numbers {e : Expr} (hleaves : e.ProperLeaves) :
    e.literals = e.numbers.map Literal.value := by
  induction e with
  | leaf k v span mark =>
    cases k with
    | unknown code => exact hleaves.elim
    | _ => rfl
  | unary op span mark e ih => exact ih hleaves
  | binary op span mark l r ihl ihr =>
    simp [literals, numbers, leaves, ihl hleaves.1, ihr hleaves.2]

/-- Two bytes for a number, one for any other node. -/
theorem codeSize_eq {e : Expr} (hleaves : e.ProperLeaves) :
    e.codeSize = 2 * e.numbers.length + e.truths.length + e.operators := by
  induction e with
  | leaf k v span mark =>
    cases k with
    | unknown code => exact hleaves.elim
    | _ => rfl
  | unary op span mark e ih =>
    have he := ih hleaves
    simp only [numbers, truths] at he
    simp only [codeSize, numbers, truths, leaves, operators]
    omega
  | binary op span mark l r ihl ihr =>
    have hl := ihl hleaves.1
    have hr := ihr hleaves.2
    simp only [numbers, truths] at hl hr
    simp only [codeSize, numbers, truths, leaves, operators, List.filter_append,
      List.length_append]
    omega

end Expr

/-! ## The number that does not fit -/

theorem Chunk.emitConstant_error {c : Chunk} {v : Value} {full : PoolFull}
    (h : c.emitConstant v = .error full) :
    c.limit ≤ c.constants.length ∧ full = ⟨c.limit⟩ := by
  rw [emitConstant, bind_eq_error_iff] at h
  rcases h with h | ⟨_, -, h⟩
  · unfold addConstant at h
    split at h
    · next hfull =>
      cases h
      exact ⟨hfull, rfl⟩
    · cases h
  · cases h

namespace Expr

/-- Generating code fails at the first number for which there is no room. -/
theorem emit_eq_error {e : Expr} {c : Chunk} {f : CapacityFault} (hleaves : e.ProperLeaves)
    (hc : c.constants.length ≤ c.limit) (h : e.emit c = .error f) :
    ∃ x, e.numbers[c.limit - c.constants.length]? = some x ∧
      f = .constants ⟨c.limit⟩ x.span := by
  induction e generalizing c with
  | leaf k v span mark =>
    by_cases hk : k = .bool
    · subst hk
      cases h
    · rw [emit_constant hk] at h
      split at h
      · cases h
      · next full hfull =>
        cases h
        obtain ⟨hlimit, rfl⟩ := Chunk.emitConstant_error hfull
        have hnumbers : (Expr.leaf k v span mark).numbers = [⟨k, v, span⟩] := by
          cases k <;> first | rfl | contradiction
        refine ⟨⟨k, v, span⟩, ?_, rfl⟩
        rw [hnumbers, show c.limit - c.constants.length = 0 by omega]
        rfl
  | unary op span mark e ih =>
    rw [emit, bind_eq_error_iff] at h
    rcases h with h | ⟨_, -, h⟩
    · exact ih hleaves hc h
    · cases h
  | binary op span mark l r ihl ihr =>
    rw [emit, bind_eq_error_iff] at h
    have hnumbers : (Expr.binary op span mark l r).numbers = l.numbers ++ r.numbers := by
      simp [numbers, leaves]
    rw [hnumbers]
    rcases h with h | ⟨c₁, hleft, h⟩
    · obtain ⟨x, hx, hf⟩ := ihl hleaves.1 hc h
      refine ⟨x, ?_, hf⟩
      rw [List.getElem?_append_left (List.getElem?_eq_some_iff.mp hx).1]
      exact hx
    · -- The left operand fits, so what is left of the room is counted in the right one.
      obtain ⟨-, hconstants, -, hlimit, hwithin⟩ := appends_of_emit hleft
      have hcount : c₁.constants.length = c.constants.length + l.numbers.length := by
        rw [hconstants, literals_eq_numbers hleaves.1]
        simp
      have hroom := hwithin hc
      rw [bind_eq_error_iff] at h
      rcases h with h | ⟨_, -, h⟩
      · obtain ⟨x, hx, hf⟩ := ihr hleaves.2 (by omega) h
        refine ⟨x, ?_, by rw [hf, hlimit]⟩
        rw [List.getElem?_append_right (by omega), ← hx]
        congr 1
        omega
      · cases h

theorem numbers_le_of_emit {e : Expr} {c c' : Chunk} (hleaves : e.ProperLeaves)
    (hc : c.constants.length ≤ c.limit) (h : e.emit c = .ok c') :
    c.constants.length + e.numbers.length ≤ c.limit := by
  obtain ⟨-, hconstants, -, -, hwithin⟩ := appends_of_emit h
  have hroom := hwithin hc
  rw [hconstants, literals_eq_numbers hleaves] at hroom
  simpa using hroom

/-- How generating code ends: the numbers are too many, the code is too long, or neither. -/
theorem generate_cases {e : Expr} (hleaves : e.ProperLeaves) (limits : Limits) :
    (∃ x, e.numbers[Chunk.effectiveLimit limits.maxConstants]? = some x ∧
      e.generate limits =
        .error (.constants ⟨Chunk.effectiveLimit limits.maxConstants⟩ x.span)) ∨
    e.numbers.length ≤ Chunk.effectiveLimit limits.maxConstants ∧
      ((0 < limits.maxCode ∧ limits.maxCode < (e.codeSize + 1 : Nat) ∧
        e.generate limits = .error (.code (e.codeSize + 1) limits.maxCode e.span)) ∨
      ((limits.maxCode ≤ 0 ∨ (e.codeSize + 1 : Nat) ≤ limits.maxCode) ∧
        ∃ c, e.generate limits = .ok c)) := by
  obtain ⟨c, hc⟩ : ∃ c, c = Chunk.withLimit limits.maxConstants := ⟨_, rfl⟩
  have hempty : c.constants.length = 0 := by rw [hc]; rfl
  have hlimit : c.limit = Chunk.effectiveLimit limits.maxConstants := by rw [hc]; rfl
  rw [generate, ← hc]
  cases hemit : e.emit c with
  | error f =>
    obtain ⟨x, hx, rfl⟩ := emit_eq_error hleaves (by omega) hemit
    rw [hempty, Nat.sub_zero, hlimit] at hx
    exact .inl ⟨x, hx, by rw [error_bind, hlimit]⟩
  | ok c₁ =>
    have hfits := numbers_le_of_emit hleaves (by omega) hemit
    have hlength : (c₁.emit .ret).code.length = e.codeSize + 1 := by
      rw [Chunk.code_emit, (appends_of_emit hemit).code, hc]
      simp [Chunk.withLimit, Chunk.code]
    refine .inr ⟨by omega, ?_⟩
    simp only [ok_bind, hlength]
    by_cases hlong : 0 < limits.maxCode ∧ limits.maxCode < (e.codeSize + 1 : Nat)
    · exact .inl ⟨hlong.1, hlong.2, by rw [if_pos hlong]; rfl⟩
    · exact .inr ⟨by omega, c₁.emit .ret, by rw [if_neg hlong]; rfl⟩

end Expr

/-! ## Programs -/

section Programs

variable {source : Bytes} {e : Expr} {kind : Kind} (hparse : parse source = .ok e)
  (htype : (Tree.ofExpr e).typing.result = .ok kind) (limits : Limits)

include hparse

/-- The code of a program is as long as its numbers, truth values and operators ask for,
and its constants are the numbers. -/
theorem chunk_of_compile {limits : Limits} {p : Program}
    (hcompile : compile source limits = .ok p) :
    p.chunk.code.length = e.codeSize + 1 ∧ p.chunk.constants = e.numbers.map Literal.value := by
  obtain ⟨e', hparse', -, hgenerate⟩ := stages_of_compile hcompile
  rw [hparse] at hparse'
  cases hparse'
  have hc : e.Generated p.chunk := Expr.generated_of_generate hgenerate
  have hleaves : e.ProperLeaves := properLeaves_of_parseTokens hparse
  refine ⟨?_, hc.constants.trans (Expr.literals_eq_numbers hleaves)⟩
  rw [hc.code]
  simp

include htype

/-- Of a source text with a kind, only generating the code can fail. -/
theorem compile_eq_generate :
    compile source limits =
      match e.generate limits with
      | .error f => .error (.capacity f)
      | .ok c => .ok ⟨source, c, kind, (scan source).faults⟩ := by
  rw [compile_eq, ← Tree.generate_ofExpr]
  cases hgenerate : (Tree.ofExpr e).generate limits with
  | error f => simp only [hparse, htype, hgenerate]
  | ok c => simp only [hparse, htype, hgenerate]

/-- There is a program just if both limits are kept. -/
theorem exists_compile_ok_iff :
    (∃ p, compile source limits = .ok p) ↔
      e.numbers.length ≤ Chunk.effectiveLimit limits.maxConstants ∧
        (limits.maxCode ≤ 0 ∨ (e.codeSize + 1 : Nat) ≤ limits.maxCode) := by
  rw [compile_eq_generate hparse htype limits]
  rcases Expr.generate_cases (properLeaves_of_parseTokens hparse) limits with
    ⟨x, hx, hgenerate⟩ | ⟨hfits, ⟨hpos, hlong, hgenerate⟩ | ⟨hshort, c, hgenerate⟩⟩
  · have hmany := (List.getElem?_eq_some_iff.mp hx).1
    rw [hgenerate]
    constructor
    · rintro ⟨p, hp⟩
      cases hp
    · rintro ⟨hfits, -⟩
      omega
  · rw [hgenerate]
    constructor
    · rintro ⟨p, hp⟩
      cases hp
    · rintro ⟨-, hshort⟩
      omega
  · rw [hgenerate]
    exact ⟨fun _ => ⟨hfits, hshort⟩, fun _ => ⟨_, rfl⟩⟩

/-- Without a program the report is on the first number too many, if there is one, and
otherwise on the whole expression. -/
theorem report_of_compile_error {f : Failure} (hcompile : compile source limits = .error f) :
    (f.diagnostic source).kind = .capacity ∧
      if Chunk.effectiveLimit limits.maxConstants < e.numbers.length then
        (f.diagnostic source).cause? =
            some (.poolFull ⟨Chunk.effectiveLimit limits.maxConstants⟩) ∧
          ∃ x, e.numbers[Chunk.effectiveLimit limits.maxConstants]? = some x ∧
            (f.diagnostic source).spans = [x.span]
      else (f.diagnostic source).spans = [e.span] := by
  rw [compile_eq_generate hparse htype limits] at hcompile
  rcases Expr.generate_cases (properLeaves_of_parseTokens hparse) limits with
    ⟨x, hx, hgenerate⟩ | ⟨hfits, ⟨-, -, hgenerate⟩ | ⟨-, c, hgenerate⟩⟩
  · rw [hgenerate] at hcompile
    cases hcompile
    rw [if_pos (List.getElem?_eq_some_iff.mp hx).1]
    exact ⟨rfl, rfl, x, hx, rfl⟩
  · rw [hgenerate] at hcompile
    cases hcompile
    rw [if_neg (by omega)]
    exact ⟨rfl, rfl⟩
  · rw [hgenerate] at hcompile
    cases hcompile

end Programs

/-- Compiling an expression that has a kind fails only for want of room: when it has more
numbers than a chunk may hold, at the first number too many, and otherwise when its code
would be too long, at the whole expression. -/
theorem compile_capacity {source : Bytes} {e : Expr} {kind : Kind}
    (hparse : parse source = .ok e) (htype : (Tree.ofExpr e).typing.result = .ok kind)
    (limits : Limits) :
    let limit : Nat :=
      if 1 ≤ limits.maxConstants ∧ limits.maxConstants ≤ 256 then limits.maxConstants.toNat
      else 256
    let bytes : Nat := 2 * e.numbers.length + e.truths.length + e.operators + 1
    e.numbers.Pairwise Literal.Precedes ∧
      ((∃ p, compile source limits = .ok p) ↔
        e.numbers.length ≤ limit ∧ (limits.maxCode ≤ 0 ∨ (bytes : Int) ≤ limits.maxCode)) ∧
      (∀ p, compile source limits = .ok p →
        p.chunk.code.length = bytes ∧ p.chunk.constants = e.numbers.map Literal.value) ∧
      ∀ f, compile source limits = .error f →
        (f.diagnostic source).kind = .capacity ∧
          if limit < e.numbers.length then
            (f.diagnostic source).cause? = some (.poolFull ⟨limit⟩) ∧
              ∃ x, e.numbers[limit]? = some x ∧ (f.diagnostic source).spans = [x.span]
          else (f.diagnostic source).spans = [e.span] := by
  intro limit bytes
  have hbytes : e.codeSize + 1 = bytes := by
    rw [Expr.codeSize_eq (properLeaves_of_parseTokens hparse)]
  refine ⟨(Grammar.pairwise_leaves hparse).filter _, ?_, ?_, ?_⟩
  · rw [← hbytes]
    exact exists_compile_ok_iff hparse htype limits
  · intro p hcompile
    rw [← hbytes]
    exact chunk_of_compile hparse hcompile
  · intro f hcompile
    exact report_of_compile_error hparse htype limits hcompile

/-- Of the numbers in `1.5+(-2.5+4.0)`, a chunk for two constants has no place for the
third. -/
theorem compile_capacity_third :
    let source := utf8 "1.5+(-2.5+4.0)"
    let limits : Limits := { maxConstants := 2, maxCode := 9 }
    ∃ e f, parse source = .ok e ∧ (Tree.ofExpr e).typing.result = .ok .float ∧
      e.numbers = [⟨.float, .float ⟨0x3fc00000⟩, ⟨0, 3⟩⟩, ⟨.float, .float ⟨0x40200000⟩, ⟨6, 9⟩⟩,
        ⟨.float, .float ⟨0x40800000⟩, ⟨10, 13⟩⟩] ∧
      (¬∃ p, compile source limits = .ok p) ∧ compile source limits = .error f ∧
      (f.diagnostic source).kind = .capacity ∧
      (f.diagnostic source).cause? = some (.poolFull ⟨2⟩) ∧
      (f.diagnostic source).spans = [⟨10, 13⟩] := by
  intro source limits
  let e : Expr := .joined .add ⟨3, 4⟩ (.ofFloat ⟨0x3fc00000⟩ ⟨0, 3⟩)
    (.joined .add ⟨9, 10⟩ (.applied .negate ⟨5, 6⟩ (.ofFloat ⟨0x40200000⟩ ⟨6, 9⟩))
      (.ofFloat ⟨0x40800000⟩ ⟨10, 13⟩))
  have hparse : parse source = .ok e := by decide +kernel
  have htype : (Tree.ofExpr e).typing.result = .ok .float := by decide +kernel
  obtain ⟨-, hfits, -, hfails⟩ := compile_capacity hparse htype limits
  have hnone : ¬∃ p, compile source limits = .ok p := fun hp => absurd (hfits.mp hp).1 (by decide)
  cases hcompile : compile source limits with
  | ok p => exact absurd ⟨p, hcompile⟩ hnone
  | error f =>
    obtain ⟨hkind, hreport⟩ := hfails f hcompile
    rw [if_pos (by decide)] at hreport
    obtain ⟨hcause, x, hx, hspans⟩ := hreport
    cases hx
    exact ⟨e, f, hparse, htype, rfl, by rwa [← hcompile], rfl, hkind, hcause, hspans⟩

end Abacus
