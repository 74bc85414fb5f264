import EffectLang.Language.Check
import EffectLang.Proofs.Grammar.Refusal
import EffectLang.Proofs.Language.Reach

/-!
# Where a diagnostic points

The diagnostic of a text that fails points into this text.  The main statement is
`parse_error_diagnostic`: it has the code and the span of the error, its labels lie in the text, so
that clamping them to the text changes nothing, and it passes on what the error suggests.

**The places.**  `Stretch.Within size` says of a stretch that it lies in a text of `size`
characters.  The tokens of a text of fewer than `2 ^ 32` characters lie in it
(`Language.tokens_within`), and so does what is made of their spans: ends of tokens, and merged
spans.  An error of the scanner points at characters that were read
(`Language.span_within_of_tokenize_error`), and an error of the parser at tokens that it has seen
(`Grammar.Refusal.within`).

**The labels.**  A diagnostic points where its error points and nowhere else, save that an unclosed
group is marked at its parenthesis too (`Grammar.ParseError.span_of_mem_labels`).
-/

namespace EffectLang

/-! ## Spans in a text -/

/-- The stretch lies in a text of `size` characters. -/
structure Stretch.Within (size : Nat) (s : Stretch) : Prop where
  forward : s.start ≤ s.stop
  stop_le : s.stop ≤ size

namespace Span

variable {size : Nat} {offset : Offset} {s t : Span}

/-- What is drawn lies inside the text. -/
lemma within_clamp (size : Nat) (s : Span) : (s.clamp size).Within size :=
  ⟨clamp_start_le_stop size s, clamp_stop_le size s⟩

/-- A span inside the text is drawn as it is. -/
lemma clamp_eq_of_within (h : s.range.Within size) : s.clamp size = s.range :=
  clamp_eq_range h.forward h.stop_le

lemma within_point (h : offset.toNat ≤ size) : (point offset).range.Within size :=
  ⟨Nat.le_refl _, h⟩

/-- What two spans inside the text span together lies inside too. -/
lemma within_merge (hs : s.range.Within size) (ht : t.range.Within size) :
    (s.merge t).range.Within size := by
  rw [range_merge]
  exact ⟨Nat.le_trans (Nat.min_le_left _ _) (Nat.le_trans hs.forward (Nat.le_max_left _ _)),
    Nat.max_le.2 ⟨hs.stop_le, ht.stop_le⟩⟩

end Span

/-! ## Diagnostics -/

namespace LexError

lemma code_diagnostic (e : LexError) : e.diagnostic.code = e.code := by
  cases e <;> rfl

lemma primarySpan?_diagnostic (e : LexError) : e.diagnostic.primarySpan? = some e.span := by
  cases e <;> rfl

lemma suggestions_diagnostic (e : LexError) : e.diagnostic.suggestions = e.suggestions := by
  cases e <;> rfl

lemma labels_diagnostic (e : LexError) : e.diagnostic.labels = [⟨e.span, e.label, true⟩] := by
  cases e <;> rfl

end LexError

namespace Grammar

open Pending State

namespace ParseError

variable {e : ParseError} {l : Label} {hint : String}

lemma code_diagnostic (e : ParseError) : e.diagnostic.code = e.code := by
  obtain ⟨kind, span, context, related, hint⟩ := e
  cases kind <;> cases hint <;> rfl

lemma labels_diagnostic (e : ParseError) : e.diagnostic.labels = e.report.labels := by
  rw [diagnostic]
  split <;> rfl

lemma primarySpan?_diagnostic (e : ParseError) : e.diagnostic.primarySpan? = some e.span := by
  rw [Diagnostic.primarySpan?, labels_diagnostic]
  obtain ⟨kind, span, context, related, hint⟩ := e
  cases kind <;> rfl

/-- A label marks the place of the error, or the second place that the error knows of. -/
theorem span_of_mem_labels (h : l ∈ e.diagnostic.labels) :
    l.span = e.span ∨ e.related = some l.span := by
  rw [labels_diagnostic] at h
  obtain ⟨kind, span, context, related, hint⟩ := e
  cases kind with
  | unclosedParen =>
      rcases List.mem_pair.1 h with rfl | rfl
      · exact .inl rfl
      · cases related with
        | none => exact .inl rfl
        | some opening => exact .inr rfl
  -- All other reports have one label.
  | _ => exact .inl (congrArg Label.span (List.mem_singleton.1 h))

/-- The hint of an error is passed on, but for an unclosed group, whose report has a suggestion of
its own. -/
lemma hint_mem_suggestions (h : hint ∈ e.hint)
    (hunclosed : e.kind = .unclosedParen → hint = "add `)` to close the group") :
    hint ∈ e.diagnostic.suggestions := by
  obtain ⟨kind, span, context, related, _ | hint'⟩ := e
  · cases h
  · obtain rfl : hint' = hint := Option.some.inj h
    cases kind with
    | unclosedParen =>
        rw [hunclosed rfl]
        exact List.mem_singleton_self _
    | _ => exact List.mem_singleton_self _

end ParseError

/-! ## The errors of the parser -/

section Within

variable {ts : List Token} {k size : Nat} {err : ParseError}

/-- The end of the tokens lies inside the text. -/
lemma endSpan_within (hts : ∀ t ∈ ts, t.span.range.Within size) :
    (Cursor.endSpan ⟨ts, k⟩).range.Within size := by
  rw [Cursor.endSpan]
  split
  · rename_i t ht
    exact Span.within_point (hts t (List.mem_of_getLast? ht)).stop_le
  · exact Span.within_point (Nat.zero_le size)

/-- The place of a cursor lies inside the text. -/
lemma currentSpan_within (hts : ∀ t ∈ ts, t.span.range.Within size) :
    (Cursor.currentSpan ⟨ts, k⟩).range.Within size := by
  rw [Cursor.currentSpan]
  split
  · rename_i t ht
    exact hts t (List.mem_of_getElem? ht)
  · exact endSpan_within hts

/-- What remains in front of a cursor lies inside the text. -/
lemma remainingSpan_within (hts : ∀ t ∈ ts, t.span.range.Within size) :
    (Cursor.remainingSpan ⟨ts, k⟩).range.Within size := by
  rw [Cursor.remainingSpan]
  split
  · rename_i t last ht hlast
    exact Span.within_merge (hts t (List.mem_of_getElem? ht))
      (hts last (List.mem_of_getLast? hlast))
  · exact endSpan_within hts

/-- The parenthesis of a group that is still open was read. -/
lemma mem_of_closeAll_eq_group {primary : Bool} {e inner : Expr} {stack outer : List Pending}
    {opening : Token} (hreads : Reads (wanting []) ts (holding primary e stack))
    (hclose : closeAll e stack = (inner, group opening :: outer)) : opening ∈ ts := by
  have hread : stackTokens stack ++ e.tokens = ts := hreads.tokens
  rw [← hread, ← tokens_closeAll, hclose]
  simp [stackTokens, Pending.tokens]

/-- An error of the parser points at tokens that it was given. -/
theorem Refusal.within (h : Refusal ts k err) (hts : ∀ t ∈ ts, t.span.range.Within size) :
    err.span.range.Within size ∧ ∀ s ∈ err.related, s.range.Within size := by
  cases h with
  | empty hnil => exact ⟨Span.within_point (Nat.zero_le size), by simp [ParseError.emptyInput]⟩
  | operand hreads ht =>
      rw [ParseError.span_climb, ParseError.related_climb]
      exact ⟨hts _ (List.mem_of_getElem? ht), by simp [ParseError.expectedOperand]⟩
  | operandEnd hreads hend =>
      rw [ParseError.span_climb, ParseError.related_climb]
      exact ⟨endSpan_within hts, by simp [ParseError.unexpectedEndOfInput]⟩
  | unclosed hreads hclose =>
      have hopening := List.mem_of_mem_take (mem_of_closeAll_eq_group hreads hclose)
      rw [ParseError.span_climb, ParseError.related_climb]
      exact ⟨currentSpan_within hts, by simpa [ParseError.unclosedParen] using hts _ hopening⟩
  | unmatched hreads hclosed ht hright =>
      exact ⟨hts _ (List.mem_of_getElem? ht), by simp [ParseError.unmatchedCloseParen]⟩
  | trailing hreads hclosed ht hright =>
      exact ⟨remainingSpan_within hts, by simp [ParseError.trailingTokens]⟩

/-- What the report of an unclosed group suggests is what the error of the parser has for a hint. -/
lemma Refusal.hint_of_unclosed (h : Refusal ts k err) (hkind : err.kind = .unclosedParen) :
    err.hint = some "add `)` to close the group" := by
  cases h with
  | unclosed hreads hclose => rw [ParseError.hint_climb, ParseError.unclosedParen]
  | operand | operandEnd =>
      rw [ParseError.kind_climb] at hkind
      cases hkind
  | _ => cases hkind

end Within

end Grammar

/-! ## The text -/

namespace Language

variable {L : Language} {source : String} {list : TokenList} {e : LexError}

/-- The tokens of a text lie in it. -/
lemma tokens_within (h : L.tokenize source = .ok list) (hsize : source.length < 2 ^ 32) :
    ∀ t ∈ list.tokens, t.span.range.Within source.length := by
  intro t ht
  have hscan := tokenize_eq_ok_iff.1 h
  have hplaced := hscan.placed (by rwa [String.length_toList])
  obtain ⟨before, after, hsplit⟩ := List.append_of_mem ht
  have hstop := hplaced.stop_le_length hsplit
  rw [hscan.text, String.ofList_toList] at hstop
  exact ⟨hplaced.forward ht, hstop⟩

/-- An error of the scanner points into the text. -/
theorem span_within_of_tokenize_error (h : L.tokenize source = .error e)
    (hsize : source.length < 2 ^ 32) : e.span.range.Within source.length := by
  obtain ⟨k, n, hle, hspan⟩ := span_of_tokenize_error h
  rw [hspan, Span.range, Offset.toNat_after (by omega), Offset.toNat_after (by omega)]
  exact ⟨Nat.le_add_right k n, hle⟩

/-- A text that fails does so in the scanner, or in the parser, which is given all its tokens. -/
lemma parse_eq_error_cases {err : EffectError} (h : L.parse source = .error err) :
    (∃ e, err = .lexing e ∧ L.tokenize source = .error e) ∨
      ∃ e list, err = .parsing e ∧ L.tokenize source = .ok list ∧
        Grammar.parse list.tokens = .error e := by
  rw [Language.parse] at h
  split at h
  · rename_i e he
    cases h
    exact .inl ⟨e, rfl, he⟩
  · rename_i list hlist
    split at h
    · rename_i e he
      cases h
      exact .inr ⟨e, list, rfl, hlist, he⟩
    · cases h

end Language

/-! ## The diagnostic of a text that fails -/

namespace EffectError

/-- What an error suggests to do about it. -/
def advice : EffectError → List String
  | lexing e => e.suggestions
  | parsing e => e.hint.toList

lemma code_diagnostic (err : EffectError) : err.diagnostic.code = err.code := by
  cases err with
  | lexing e => exact e.code_diagnostic
  | parsing e => exact e.code_diagnostic

lemma primarySpan?_diagnostic (err : EffectError) :
    err.diagnostic.primarySpan? = some err.span := by
  cases err with
  | lexing e => exact e.primarySpan?_diagnostic
  | parsing e => exact e.primarySpan?_diagnostic

end EffectError

namespace Language

variable {L : Language} {source : String} {err : EffectError}

/-- All labels of an error lie inside the text. -/
lemma labels_within (h : L.parse source = .error err) (hsize : source.length < 2 ^ 32) :
    ∀ l ∈ err.diagnostic.labels, l.span.range.Within source.length := by
  intro l hl
  rcases parse_eq_error_cases h with ⟨e, rfl, he⟩ | ⟨e, list, rfl, hlist, he⟩
  · rw [EffectError.diagnostic, e.labels_diagnostic, List.mem_singleton] at hl
    rw [hl]
    exact span_within_of_tokenize_error he hsize
  · obtain ⟨k, -, hrefusal⟩ := Grammar.refusal_of_parse_error he
    obtain ⟨hspan, hrelated⟩ := hrefusal.within (tokens_within hlist hsize)
    rcases Grammar.ParseError.span_of_mem_labels hl with hl | hl
    · rwa [hl]
    · exact hrelated _ hl

/-- The diagnostic of an error gives all its advice. -/
lemma advice_subset_suggestions (h : L.parse source = .error err) :
    err.advice ⊆ err.diagnostic.suggestions := by
  intro hint hhint
  rcases parse_eq_error_cases h with ⟨e, rfl, he⟩ | ⟨e, list, rfl, hlist, he⟩
  · rwa [EffectError.diagnostic, e.suggestions_diagnostic]
  · obtain ⟨k, -, hrefusal⟩ := Grammar.refusal_of_parse_error he
    have hhint : e.hint = some hint := Option.mem_toList.1 hhint
    refine Grammar.ParseError.hint_mem_suggestions hhint fun hkind => ?_
    exact Option.some.inj (hhint.symm.trans (hrefusal.hint_of_unclosed hkind))

/-- **The diagnostic of a text that fails points into this text.**  It has the code of the error and
marks the span of the error, and what the error suggests is suggested.  In a text of fewer than
`2 ^ 32` characters all its labels lie in the text, and clamping leaves them as they are; and clamped
to any other text they lie in that text. -/
theorem parse_error_diagnostic (h : L.parse source = .error err) :
    err.diagnostic.code = err.code ∧ err.diagnostic.primarySpan? = some err.span ∧
      (source.length < 2 ^ 32 → ∀ l ∈ err.diagnostic.labels,
        l.span.range.Within source.length ∧ l.span.clamp source.length = l.span.range) ∧
      err.advice ⊆ err.diagnostic.suggestions ∧
      ∀ text : String, ∀ l ∈ err.diagnostic.labels,
        (l.span.clamp text.length).Within text.length := by
  refine ⟨err.code_diagnostic, err.primarySpan?_diagnostic, fun hsize l hl => ?_,
    advice_subset_suggestions h, fun text l hl => Span.within_clamp text.length l.span⟩
  have hwithin := labels_within h hsize l hl
  exact ⟨hwithin, Span.clamp_eq_of_within hwithin⟩

/-- A group that is still open at the end, shown with a text that ends before. -/
theorem parse_error_diagnostic_unclosed :
    ∃ err, itemEffects.parse "A => (B++ " = .error err ∧ err.code = .unclosedDelimiter ∧
      err.diagnostic.labels.map Label.span = [⟨9, 9⟩, ⟨5, 6⟩] ∧
      (∀ l ∈ err.diagnostic.labels, l.span.range.Within "A => (B++ ".length ∧
        l.span.clamp "A => (B++ ".length = l.span.range) ∧
      err.advice = ["add `)` to close the group"] ∧ err.advice ⊆ err.diagnostic.suggestions ∧
      (err.diagnostic.labels.map fun l => l.span.clamp "A =>".length) = [⟨4, 4⟩, ⟨4, 4⟩] ∧
      ∀ l ∈ err.diagnostic.labels, (l.span.clamp "A =>".length).Within "A =>".length := by
  have h : itemEffects.parse "A => (B++ " = .error (.parsing ⟨.unclosedParen, ⟨9, 9⟩, .grouping,
      some ⟨5, 6⟩, some "add `)` to close the group"⟩) := by cbv
  obtain ⟨-, -, hlabels, hadvice, helsewhere⟩ := parse_error_diagnostic h
  exact ⟨_, h, rfl, rfl, hlabels (by decide), rfl, hadvice, by cbv, helsewhere "A =>"⟩

/-- The label of a `=` that ends with the character number `2 ^ 32` ends before it begins. -/
theorem parse_error_diagnostic_overlong :
    ∃ err l, itemEffects.parse (Text.spaces (2 ^ 32 - 1) ++ "=") = .error err ∧
      l ∈ err.diagnostic.labels ∧ l.span.range.stop < l.span.range.start ∧
      l.span.clamp (Text.spaces (2 ^ 32 - 1) ++ "=").length ≠ l.span.range := by
  have hscan : itemEffects.scan (.after (2 ^ 32 - 1)) "=".toList [] =
      .error (.invalidOperator ⟨2 ^ 32 - 1, 0⟩ "=") := by cbv
  have h : itemEffects.tokenize (Text.spaces (2 ^ 32 - 1) ++ "=") = _ :=
    tokenize_spaces itemEffects _ (by simp [Text.isBlank, Text.blankRanges])
  rw [hscan] at h
  refine ⟨.lexing (.invalidOperator ⟨2 ^ 32 - 1, 0⟩ "="), _, by rw [Language.parse, h]; rfl,
    List.mem_singleton_self _, by decide, ?_⟩
  rw [String.length_append, Text.length_spaces]
  decide

end Language

end EffectLang
