import Abacus.Proofs.Emit.Scoping
import Abacus.Proofs.FrontEnds
import Abacus.Proofs.Machine.Safety
import Abacus.Proofs.StackUse
import Abacus.Proofs.Text.Words
import Abacus.Shell.Runner

/-!
# The source in the comment

The source that a file quotes has no influence on the code of the file.  It stands in one
line of comment, whatever bytes it has, because its white space is collapsed
(`Emit.isCommentLine_commentText`).  The rest of the file does not depend on it
(`Emit.QuotesOnly`).

One influence is left.  A comment may hold no NUL, no byte order mark and no stray byte, so
there is no file for a source that has one of them, although a program may have it in a
comment of its own.
-/

namespace Abacus

/-! ## One line -/

namespace Comment

/-- White space may stand in a file, so the collapsed source is writable just if the
source is. -/
theorem isWritableText_collapse (source : Bytes) :
    isWritableText (collapse source) = isWritableText source := by
  rw [Bool.eq_iff_iff, isWritableText, isWritableText, List.all_eq_true, List.all_eq_true,
    collapse, Bytes.forall_glyphs_join_words (by decide)]
  refine forall₂_congr fun g _ => ?_
  cases hblank : g.isBlank with
  | false => simp
  | true =>
    have hwritable : isWritable g = true := by
      cases g with
      | stray b => cases hblank
      | char c =>
        simp only [Glyph.isBlank, isBlankCode, Bool.or_eq_true, Bool.and_eq_true,
          decide_eq_true_eq] at hblank
        simp only [isWritable, Bool.and_eq_true, decide_eq_true_eq]
        omega
    simp [hwritable]

theorem newline_notMem_collapse (source : Bytes) : Bytes.newline ∉ collapse source := by
  refine Bytes.newline_notMem ((Bytes.forall_glyphs_join_words (by decide) source).mpr ?_)
  rintro g - hblank rfl
  cases hblank

theorem newline_notMem_curlFrom (afterTick skip : Bool) {s : Bytes} (hs : Bytes.newline ∉ s) :
    Bytes.newline ∉ curlFrom afterTick skip s := by
  have hopen : Bytes.newline ∉ utf8 "“" := by decide
  have hclose : Bytes.newline ∉ utf8 "”" := by decide
  fun_induction curlFrom afterTick skip s with
  | case1 => exact hs
  | _ => simp_all

end Comment

/-- A name has no line end. -/
theorem newline_notMem_of_isGoName {name : Bytes} (h : isGoName name = true) :
    Bytes.newline ∉ name := by
  refine Bytes.newline_notMem ?_
  rintro g hg rfl
  unfold isGoName at h
  split at h
  · cases h
  · next first rest hglyphs =>
    rw [hglyphs] at hg
    simp only [Bool.and_eq_true, List.all_eq_true] at h
    rcases List.mem_cons.mp hg with rfl | hg
    · exact absurd h.1.1 (by decide +kernel)
    · exact absurd (h.1.2 _ hg) (by decide +kernel)

namespace Emit

/-- One line that is a comment. -/
def IsCommentLine (s : Bytes) : Prop :=
  ∃ text, s = utf8 "// " ++ text ++ [Bytes.newline] ∧ Bytes.newline ∉ text

/-- Whether a source has nothing but white space. -/
def isBlankText (source : Bytes) : Bool :=
  source.glyphs.all Glyph.isBlank

theorem collapse_eq_nil_iff (source : Bytes) :
    Comment.collapse source = [] ↔ isBlankText source = true := by
  rw [isBlankText, List.all_eq_true]
  exact Bytes.join_words_eq_nil_iff source

theorem commentText_blank (function : Bytes) {source : Bytes} (h : isBlankText source = true) :
    commentText function source = [] := by
  simp [commentText, (collapse_eq_nil_iff source).mpr h]

theorem isCommentLine_commentText {function source : Bytes} (hfunction : isGoName function = true)
    (h : isBlankText source = false) : IsCommentLine (commentText function source) := by
  have hne : Comment.collapse source ≠ [] := by
    rw [ne_eq, collapse_eq_nil_iff, h]
    simp
  refine ⟨Comment.curl (function ++ utf8 " evaluates " ++ Comment.collapse source), ?_, ?_⟩
  · rw [commentText, if_neg (by simpa using hne)]
    rfl
  · refine Comment.newline_notMem_curlFrom _ _ ?_
    have hwords : Bytes.newline ∉ utf8 " evaluates " := by decide
    have hname := newline_notMem_of_isGoName hfunction
    have hsource := Comment.newline_notMem_collapse source
    simp [hname, hwords, hsource]

/-! ## The rest of the file -/

/-- The files that differ in the source only.  They share all that stands before and behind
the comment, which is a line of its own above the function, and a blank source has none. -/
structure QuotesOnly (emit : Bytes → Except EmitError EmittedFile) (function head tail : Bytes)
    (kind : Kind) : Prop where
  head_ends : head.getLast? = some Bytes.newline
  tail_starts : utf8 "func " ++ function ++ utf8 "()" <+: tail
  blank : ∀ source, isBlankText source = true → emit source = .ok ⟨head ++ tail, kind⟩
  quoted : ∀ source, isBlankText source = false → Comment.isWritableText source = true →
    ∃ line, IsCommentLine line ∧ emit source = .ok ⟨head ++ line ++ tail, kind⟩
  refused : ∀ source, Comment.isWritableText source = false → emit source = .error .unwritable

theorem isWritableText_of_blank {source : Bytes} (h : isBlankText source = true) :
    Comment.isWritableText source = true := by
  rw [← Comment.isWritableText_collapse, (collapse_eq_nil_iff source).mpr h]
  rfl

theorem getLast?_headText (package : Bytes) (names : List Bytes) :
    (headText package names).getLast? = some Bytes.newline := by
  have hnewlines : (utf8 "\n\n").getLast? = some Bytes.newline := by decide
  have hclose : (utf8 "\"\n\n").getLast? = some Bytes.newline := by decide
  have hparen : (utf8 ")\n\n").getLast? = some Bytes.newline := by decide
  unfold headText
  match names with
  | [] => simp [importText, List.getLast?_append, hnewlines]
  | [name] => simp [importText, List.getLast?_append, hclose]
  | name :: other :: names => simp [importText, List.getLast?_append, hparen]

end Emit

section Files

variable (c : Chunk) (options : EmitOptions) {package function : Bytes}

/-- Options with which no file is written, whatever the source is: a main function outside
of its package, or a function that the type checker refuses by its name. -/
def EmitOptions.Refused (options : EmitOptions) (package function : Bytes) : Prop :=
  options.main = true ∧ package ≠ utf8 "main" ∨
    options.validate = true ∧
      (function = utf8 "init" ∨ function = utf8 "main" ∧ package = utf8 "main")

theorem Chunk.emitFile_eq {body : Body} (hpackage : Emit.orDefault options.package "main" = package)
    (hfunction : Emit.orDefault options.function "Eval" = function)
    (hnames : isGoPackageName package = true ∧ isGoName function = true)
    (hrefused : ¬options.Refused package function)
    (hbody : c.body options.stackDepth = .ok body) :
    c.emitFile options =
      if Comment.isWritableText options.source then
        .ok ⟨Emit.headText package (Emit.imports body options.main) ++
          Emit.commentText function options.source ++
          (Emit.functionText function body ++
            if options.main then Emit.mainText function body.kind else []), body.kind⟩
      else .error .unwritable := by
  obtain ⟨hmain, hvalidate⟩ := not_or.mp hrefused
  have herrors : ∀ line, (if options.validate then Emit.typeErrors package function line
      else []).isEmpty = true := by
    intro line
    split
    · next hvalid =>
      rw [Emit.typeErrors, if_neg fun h => hvalidate ⟨hvalid, h⟩]
      rfl
    · rfl
  unfold Chunk.emitFile
  simp only [hpackage, hfunction, hbody, hnames.1, hnames.2, if_neg hmain, herrors,
    Comment.isWritableText_collapse, Bool.not_true, Bool.false_or]
  cases Comment.isWritableText options.source with
  | false => rfl
  | true => simp

theorem Chunk.emitFile_error (hpackage : Emit.orDefault options.package "main" = package)
    (hfunction : Emit.orDefault options.function "Eval" = function)
    (h : options.Refused package function ∨ ∃ f, c.body options.stackDepth = .error f) :
    ∃ e, c.emitFile options = .error e := by
  unfold Chunk.emitFile
  simp only [hpackage, hfunction]
  rcases h with (hmain | ⟨hvalid, hname⟩) | ⟨f, hbody⟩
  · rw [if_pos hmain]
    exact ⟨_, rfl⟩
  · split
    · exact ⟨_, rfl⟩
    · split
      · exact ⟨_, rfl⟩
      · split
        · exact ⟨_, rfl⟩
        · simp [Emit.typeErrors, hname]
  · rw [hbody]
    split
    · exact ⟨_, rfl⟩
    · exact ⟨_, rfl⟩

/-- The files of a chunk differ in the comment only, or there is none for any source. -/
theorem Chunk.quotesOnly_or_error (hpackage : Emit.orDefault options.package "main" = package)
    (hfunction : Emit.orDefault options.function "Eval" = function)
    (hnames : isGoPackageName package = true ∧ isGoName function = true) :
    (∃ head tail kind, Emit.QuotesOnly (fun source => c.emitFile { options with source })
      function head tail kind) ∨
    ∀ source, ∃ e, c.emitFile { options with source } = .error e := by
  have hnone (source : Bytes) := emitFile_error c { options with source } hpackage hfunction
  by_cases hrefused : options.Refused package function
  · exact .inr fun source => hnone source (.inl hrefused)
  · cases hbody : c.body options.stackDepth with
    | error f => exact .inr fun source => hnone source (.inr ⟨f, hbody⟩)
    | ok body =>
      have hfile (source : Bytes) :=
        emitFile_eq c { options with source } hpackage hfunction hnames hrefused hbody
      refine .inl ⟨Emit.headText package (Emit.imports body options.main),
        Emit.functionText function body ++
          if options.main then Emit.mainText function body.kind else [], body.kind, ?_⟩
      exact
        { head_ends := Emit.getLast?_headText _ _
          tail_starts := by
            have hopen : utf8 "() (result " = utf8 "()" ++ utf8 " (result " := by decide
            simp [Emit.functionText, hopen]
          blank := fun source hblank => by
            rw [hfile source, if_pos (Emit.isWritableText_of_blank hblank),
              Emit.commentText_blank function hblank, List.append_nil]
          quoted := fun source hblank hwritable =>
            ⟨Emit.commentText function source,
              Emit.isCommentLine_commentText hnames.2 hblank, by rw [hfile source, if_pos hwritable]⟩
          refused := fun source hwritable => by
            rw [hfile source, if_neg (by simp [hwritable])] }

end Files

/-! ## Programs -/

namespace Body

/-- A body that fits into some depth is found without a bound as well. -/
theorem ofCode_unbounded {pool : List Value} {depth bound : Int} (hbound : bound ≤ 0)
    {offset next : Nat} {slots : List Slot} {code : Bytes} {body : Body}
    (hroom : 0 < depth → slots.length ≤ depth.toNat)
    (hbody : ofCode pool depth offset next slots code = .ok body) :
    ofCode pool bound offset next slots code = .ok body := by
  have hempty (slots : List Slot) : isFull bound slots = false :=
    isFull_eq_false fun hpos => absurd hpos (by omega)
  fun_induction ofCode pool depth offset next slots code generalizing body with
  | case6 offset next slots b hop index rest v hindex hfull ih =>
    obtain rfl := Opcode.byte_of_ofByte? hop
    obtain ⟨inner, hinner, rfl⟩ := eq_of_before_eq_ok hbody
    rw [ofCode_const hindex, if_neg (by simp [hempty]),
      ih (length_lt_of_not_isFull hfull) hinner]
    rfl
  | case8 offset next slots b rest t hop hfull ih =>
    obtain rfl := Opcode.byte_of_ofByte? hop
    obtain ⟨inner, hinner, rfl⟩ := eq_of_before_eq_ok hbody
    rw [ofCode_truth, if_neg (by simp [hempty]), ih (length_lt_of_not_isFull hfull) hinner]
    rfl
  | case10 offset next b rest op hop a slots hfit hfull ih =>
    rw [isFull_eq_false hroom] at hfull
    contradiction
  | case11 offset next b rest op hop a slots hfit hfull ih =>
    obtain rfl := Opcode.byte_of_ofByte? hop
    obtain ⟨inner, hinner, rfl⟩ := eq_of_before_eq_ok hbody
    rw [ofCode_unary hfit (hempty _), ih hroom hinner]
    rfl
  | case13 offset next b rest op hop r l slots hfit _ ih =>
    obtain rfl := Opcode.byte_of_ofByte? hop
    have htwo : 0 < depth → slots.length + 2 ≤ depth.toNat := hroom
    rw [isFull_eq_false fun h => by have := htwo h; omega] at hbody
    obtain ⟨guarded, hguarded, rfl⟩ := eq_of_before_eq_ok hbody
    obtain ⟨inner, hinner, rfl⟩ := eq_of_before_eq_ok hguarded
    rw [ofCode_binary hfit (hempty _), ← before_before,
      ih (fun h => by have := htwo h; simp; omega) hinner]
    rfl
  | case17 offset next b rest hop a slots =>
    rw [ofCode.eq_def]
    simp only [hop]
    exact hbody
  | _ => contradiction

end Body

/-- The code of an expression that never holds more values than the depth allows has a
body. -/
theorem Expr.Generated.exists_body {e : Expr} {c : Chunk} {k : Kind} {depth : Int}
    (hc : e.Generated c) (hkind : e.typeOf = .ok k) (hleaves : e.ProperLeaves)
    (hfits : 0 < depth → c.firstHolding? (depth.toNat + 1) = none) :
    ∃ body, c.body depth = .ok body := by
  by_cases hdepth : 0 < depth
  · have hover := hfits hdepth
    rw [hc.firstHolding?_eq, Option.map_eq_none_iff, overflow?_eq_none_iff, Nat.zero_add] at hover
    obtain ⟨body, hbody, -⟩ := hc.body_room (by omega) hkind hleaves hover
    rw [Int.toNat_of_nonneg (by omega)] at hbody
    exact ⟨body, hbody⟩
  · obtain ⟨body, hbody, -⟩ := hc.body_room e.need_pos hkind hleaves (Nat.le_refl _)
    exact ⟨body, Body.ofCode_unbounded (by omega) (fun _ => Nat.zero_le _) hbody⟩

/-- A compiled program that fits is printed as a file just if its source can be quoted. -/
theorem Runner.run_emit {r : Runner} {source : Bytes} {p : Program} (name : Bytes)
    (hemit : r.emit = true) (hcompile : Abacus.compile source r.limits = .ok p)
    (hfits : 0 < r.limits.stackDepth →
      p.chunk.firstHolding? (r.limits.stackDepth.toNat + 1) = none) :
    (r.run name source).2 = Comment.isWritableText source := by
  obtain ⟨e, hparse, hkind, hgenerate⟩ := stages_of_compile hcompile
  obtain ⟨body, hbody⟩ := (Expr.generated_of_generate hgenerate).exists_body hkind
    (properLeaves_of_parseTokens hparse) hfits
  have hnames : isGoPackageName (utf8 "main") = true ∧ isGoName (utf8 "Eval") = true := by
    decide +kernel
  have hfile := Chunk.emitFile_eq p.chunk
    { main := true, source, stackDepth := r.limits.stackDepth } rfl rfl hnames
    (by simp [EmitOptions.Refused, Emit.orDefault]) hbody
  have hrun : (r.run name source).2 = (r.printFile source p).2 := by
    unfold run
    rw [compile_of_ok hcompile]
    simp only [hemit, if_true]
  rw [hrun, printFile, hfile]
  cases Comment.isWritableText source with
  | true => rfl
  | false => rfl

/-- The source that a file quotes changes nothing but the comment line, and nothing but a
source that a comment may not hold keeps a file from being written.  So a program that fits
the depth is printed as a file just if its source can be quoted. -/
theorem emitFile_quotesOnly (c : Chunk) (options : EmitOptions)
    (hpackage : isGoPackageName (Emit.orDefault options.package "main") = true)
    (hfunction : isGoName (Emit.orDefault options.function "Eval") = true) :
    ((∃ head tail kind, Emit.QuotesOnly (fun source => c.emitFile { options with source })
        (Emit.orDefault options.function "Eval") head tail kind) ∨
      ∀ source, ∃ e, c.emitFile { options with source } = .error e) ∧
    ∀ (r : Runner) (name source : Bytes) (p : Program), r.emit = true →
      compile source r.limits = .ok p → p.chunk = c →
      (0 < r.limits.stackDepth → c.firstHolding? (r.limits.stackDepth.toNat + 1) = none) →
      ((r.run name source).2 = true ↔ Comment.isWritableText source = true) := by
  constructor
  · exact c.quotesOnly_or_error options rfl rfl ⟨hpackage, hfunction⟩
  · rintro r name source p hemit hcompile rfl hfits
    rw [Runner.run_emit name hemit hcompile hfits]

/-- A source of two lines with quote marks, for a stack that it just fits into. -/
theorem emitFile_quotesOnly_lines :
    let source := utf8 "7 /\n2 // ''a''"
    let r : Runner := { limits := { stackDepth := 2 }, emit := true }
    ∃ p, compile source r.limits = .ok p ∧
      p.chunk.firstHolding? (r.limits.stackDepth.toNat + 1) = none ∧
      (∃ head tail kind, Emit.QuotesOnly (fun source => p.chunk.emitFile { source })
        (utf8 "Eval") head tail kind) ∧
      (r.run [] source).2 = true := by
  intro source r
  let p : Program :=
    { source, kind := .int, warnings := [],
      chunk :=
        { Chunk.empty with
          code? := some [0x10, 0, 0x10, 1, 0x53, 0xf0]
          constants := [.int 7, .int 2]
          locations := [⟨4, ⟨0, 5⟩⟩] } }
  have hcompile : compile source r.limits = .ok p := by decide +kernel
  have hfits : p.chunk.firstHolding? 3 = none := by decide +kernel
  obtain ⟨hfiles, hprograms⟩ :=
    emitFile_quotesOnly p.chunk {} (by decide +kernel) (by decide +kernel)
  refine ⟨p, hcompile, hfits, hfiles.resolve_right fun hnone => ?_,
    (hprograms r [] source p rfl hcompile rfl fun _ => hfits).mpr (by decide +kernel)⟩
  have hisOk : (p.chunk.emitFile { source := [] }).isOk = true := by decide +kernel
  obtain ⟨e, he⟩ := hnone []
  rw [he] at hisOk
  cases hisOk

/-- A program with a NUL in its comment is compiled, and there is a file for its chunk, but
none that quotes it. -/
theorem emitFile_quoting_nul :
    let source := utf8 "1 //" ++ [0x00]
    let r : Runner := { limits := {}, emit := true }
    ∃ p file, compile source r.limits = .ok p ∧ p.chunk.emitFile { source := utf8 "1" } = .ok file ∧
      p.chunk.emitFile { source } = .error .unwritable ∧ (r.run [] source).2 = false := by
  intro source r
  let p : Program :=
    { source, kind := .int, warnings := [],
      chunk :=
        { Chunk.empty with
          code? := some [0x10, 0, 0xf0]
          constants := [.int 1] } }
  have hisOk : (p.chunk.emitFile { source := utf8 "1" }).isOk = true := by decide +kernel
  obtain ⟨file, hfile⟩ := exists_eq_ok hisOk
  exact ⟨p, file, by decide +kernel, hfile, by decide +kernel, by decide +kernel⟩

end Abacus
