import Abacus.Proofs.Grammar.Parsing
import Abacus.Proofs.Grammar.Viable
import Abacus.Proofs.Scan.Continued

/-!
# The prompt waits exactly when it should

`isIncomplete` only counts parentheses and looks at the last token.  This agrees
with the parser: it never holds for a text that parses, and where it does not
hold for a text that fails to parse, no further lines help
(`isIncomplete_agrees_with_parse`).  For the second part, an expression that
begins with the tokens of the text is cut off behind them (`Derivation.viable`).
Further lines keep these tokens and their texts (`tokens_isPrefix`,
`text_append`), so the literals in front are read as before.
-/

namespace Abacus

open Grammar

section Tokens

variable (source : Bytes)

theorem kinds_scan :
    ((scan source).tokens.map (·.kind)).filter (· ≠ .endOfInput) =
      ((pieces source).filterMap PlacedPiece.token?).map (·.kind) := by
  have hkinds : ∀ k ∈ ((pieces source).filterMap PlacedPiece.token?).map (·.kind),
      k ≠ .endOfInput := by
    intro k hk
    obtain ⟨t, ht, rfl⟩ := List.mem_map.mp hk
    exact kind_of_mem_tokens ht
  rw [scan, List.map_append, List.filter_append, List.filter_eq_self.mpr (by simpa using hkinds)]
  exact List.append_nil _

theorem isIncomplete_iff :
    isIncomplete source = true ↔ Unfinished ((pieces source).filterMap PlacedPiece.token?) := by
  unfold isIncomplete Unfinished excess
  rw [kinds_scan]
  generalize (pieces source).filterMap PlacedPiece.token? = ts
  cases hlast : ts.getLast? <;> simp [hlast]

end Tokens

/-- A literal is read from its text alone. -/
theorem Grammar.readLeaf?_congr {source source' : Bytes} {t : Token}
    (h : t.text source = t.text source') : readLeaf? source t = readLeaf? source' t := by
  unfold readLeaf?
  rw [h]

/-- A text parses when its tokens have an admitted derivation. -/
theorem parse_ok_iff {source : Bytes} :
    (∃ e, parse source = .ok e) ↔
      ∃ d : Derivation .expression, d.tokens = (pieces source).filterMap PlacedPiece.token? ∧
        Admitted source maxNesting d.tokens d.nesting := by
  unfold parse
  simp only [parseTokens_ok_iff, beforeEnd, takeWhile_scan]
  constructor
  · rintro ⟨e, d, htokens, hd, -⟩
    exact ⟨d, htokens, hd⟩
  · rintro ⟨d, htokens, hd⟩
    exact ⟨_, d, htokens, hd, rfl⟩

theorem isIncomplete_of_parse_ok {source : Bytes} (h : ∃ e, parse source = .ok e) :
    isIncomplete source = false := by
  obtain ⟨d, htokens, -⟩ := parse_ok_iff.mp h
  rw [← Bool.not_eq_true, isIncomplete_iff, ← htokens]
  exact d.not_unfinished

/-- A text whose continuation parses is unfinished or parses itself. -/
theorem parse_ok_of_continued {source more : Bytes}
    (hsome : (pieces source).filterMap PlacedPiece.token? ≠ [])
    (hcomplete : isIncomplete source = false)
    (h : ∃ e, parse (source ++ Bytes.newline :: more) = .ok e) : ∃ e, parse source = .ok e := by
  obtain ⟨d, htokens, hd⟩ := parse_ok_iff.mp h
  have hfront := tokens_isPrefix more source
  rw [← htokens] at hfront
  rw [← Bool.not_eq_true, isIncomplete_iff] at hcomplete
  obtain ⟨d', htokens', hnesting⟩ := d.viable _ hfront hsome hcomplete
  refine parse_ok_iff.mpr ⟨d', htokens', ?_, hnesting.trans hd.depth⟩
  intro t ht hliteral
  rw [htokens'] at ht
  rw [← readLeaf?_congr (text_append (Bytes.newline :: more) ht)]
  exact hd.literals t (hfront.subset ht) hliteral

/-- The prompt never waits on a text that parses, and never gives up on one that
further lines could make parse. -/
theorem isIncomplete_agrees_with_parse (source : Bytes) :
    ((∃ e, parse source = .ok e) → isIncomplete source = false) ∧
    ((∃ t ∈ (scan source).tokens, t.kind ≠ .endOfInput) →
      (∃ f, parse source = .error f) → isIncomplete source = false →
        ∀ more : Bytes, ∃ f, parse (source ++ Bytes.newline :: more) = .error f) := by
  refine ⟨isIncomplete_of_parse_ok, ?_⟩
  rintro ⟨t, ht, hkind⟩ ⟨f, hf⟩ hcomplete more
  have hsome : (pieces source).filterMap PlacedPiece.token? ≠ [] := by
    intro hnil
    rw [scan, hnil, List.nil_append, List.mem_singleton] at ht
    rw [ht] at hkind
    exact hkind rfl
  cases hmore : parse (source ++ Bytes.newline :: more) with
  | error f => exact ⟨f, rfl⟩
  | ok e =>
    obtain ⟨e, he⟩ := parse_ok_of_continued hsome hcomplete ⟨e, hmore⟩
    rw [hf] at he
    contradiction

/-- A product, and a parenthesis that nothing has opened. -/
theorem isIncomplete_agrees_with_parse_closing :
    (∃ e, parse (utf8 "2*(3)") = .ok e) ∧ isIncomplete (utf8 "2*(3)") = false ∧
      isIncomplete (utf8 "1)") = false ∧
      ∀ more : Bytes, ∃ f, parse (utf8 "1)" ++ Bytes.newline :: more) = .error f := by
  have hproduct : parse (utf8 "2*(3)") =
      .ok (.joined .mul ⟨1, 2⟩ (.ofInt 2 ⟨0, 1⟩) (.ofInt 3 ⟨3, 4⟩)) := by decide +kernel
  have hclosing : parse (utf8 "1)") =
      .error (.expectedEnd ⟨.mark .closeParen, ⟨1, 2⟩⟩) := by decide +kernel
  have hcomplete : isIncomplete (utf8 "1)") = false := by decide +kernel
  refine ⟨⟨_, hproduct⟩, (isIncomplete_agrees_with_parse _).1 ⟨_, hproduct⟩, hcomplete, ?_⟩
  refine (isIncomplete_agrees_with_parse _).2 ?_ ⟨_, hclosing⟩ hcomplete
  exact ⟨⟨.integer, ⟨0, 1⟩⟩, by decide +kernel, by decide⟩

end Abacus
