import EffectLang.Proofs.Language.Reach

/-!
# The first fault of a text

A text that is not cut into tokens fails at its first fault.  What is in front of the fault is read
without an error, the fault is what the error says it is, and text that is appended cannot remove
it, unless it closes the string that was open (`tokenize_error_first_fault`).

All of this comes from one decomposition, `split_of_error`: the text is what was read, white
space, and a `LexFault`.  The part that was read can be exchanged for another end or another
continuation by `Reaches.exchange`.
-/

namespace EffectLang

namespace LexError

/-- The delimiter at the place of the error opens a string that nothing closes. -/
def IsUnterminated (delimiter : Option Char) (source : String) (e : LexError) : Prop :=
  ∃ k d, e = .unterminatedString k d ∧ e.span.range = ⟨k.toNat, k.toNat + 1⟩ ∧
    delimiter = some d ∧ source.toList[k.toNat]? = some d ∧ d ∉ source.toList.drop (k.toNat + 1)

/-- The text at the place of the error begins like an operator, is none, and is as far as greedy
reading goes. -/
def IsMisspelt (ops : List String) (source : String) (e : LexError) : Prop :=
  ∃ span text, e = .invalidOperator span text ∧
    span.range.stop = span.range.start + text.length ∧ span.cut source = text ∧
    (∃ c, source.toList[span.range.start]? = some c ∧ ∃ op ∈ ops, c ∈ op.toList) ∧ text ∉ ops ∧
    Munch ops text.toList source.toList[span.range.stop]?

/-- The character at the place of the error is a backtick, which the language has no use for. -/
def IsStray (ops : List String) (delimiter : Option Char) (source : String) (e : LexError) :
    Prop :=
  ∃ k, e = .unexpectedCharacter k '`' ∧ e.span.range = ⟨k.toNat, k.toNat + 1⟩ ∧
    source.toList[k.toNat]? = some '`' ∧ delimiter ≠ some '`' ∧ ∀ op ∈ ops, '`' ∉ op.toList

end LexError

/-- One of three statements holds and the others do not. -/
def ExactlyOne (a b c : Prop) : Prop := (a ∧ ¬ b ∧ ¬ c) ∨ (¬ a ∧ b ∧ ¬ c) ∨ (¬ a ∧ ¬ b ∧ c)

namespace LexFault

open LexError

variable {ops : List String} {delimiter : Option Char} {source : String}
  {before cs : List Char} {e : LexError} {start : Offset}

/-- A fault is reported from where it begins. -/
lemma span_start (h : LexFault ops delimiter start cs e) : e.span.start = start := by
  cases h <;> rfl

/-- The error of a fault describes the text around the fault, and can be of one sort only. -/
lemma describes (h : LexFault ops delimiter (.after before.length) cs e)
    (hsource : source.toList = before ++ cs) (hsize : source.length < 2 ^ 32) :
    ExactlyOne (e.IsUnterminated delimiter source) (e.IsMisspelt ops source)
      (e.IsStray ops delimiter source) := by
  have hlength : before.length + cs.length < 2 ^ 32 := by
    rwa [← List.length_append, ← hsource, String.length_toList]
  have hplace : (Offset.after before.length).toNat = before.length :=
    Offset.toNat_after (by omega)
  have hrange : ∀ n ≤ cs.length,
      (Span.mk (.after before.length) ((Offset.after before.length).skip n)).range =
        ⟨before.length, before.length + n⟩ := by
    intro n hn
    rw [Span.range, Offset.skip_after, hplace, Offset.toNat_after (by omega)]
  cases h with
  | @unterminated d cs hl hr hd hcs =>
      refine Or.inl ⟨⟨.after before.length, d, rfl, ?_, hd, ?_, ?_⟩, ?_, ?_⟩
      · rw [hplace]
        exact hrange 1 (Nat.succ_le_succ (Nat.zero_le _))
      · simp [hplace, hsource]
      · simpa [hplace, hsource] using hcs
      · rintro ⟨span, text, h, -⟩
        cases h
      · rintro ⟨k, h, -⟩
        cases h
  | @misspelt c more rest hc hres hmunch hnot =>
      have hspan := hrange (c :: more).length
        (by rw [← List.cons_append, List.length_append]; omega)
      refine Or.inr (Or.inl
        ⟨?_, ⟨_, String.ofList (c :: more), rfl, ?_, ?_, ?_, hnot, ?_⟩, ?_⟩)
      · rintro ⟨k, d, h, -⟩
        cases h
      · rw [hspan, String.length_ofList]
      · have htext : source = String.ofList before ++
            (String.ofList (c :: more) ++ String.ofList rest) := by
          rw [← String.toList_inj, hsource]
          simp
        rw [htext]
        refine Span.cut_middle ?_ _
        rw [hspan, String.length_ofList, String.length_ofList]
      · rw [hspan]
        exact ⟨c, by simp [hsource], hres⟩
      · have hnext : source.toList[before.length + (c :: more).length]? = rest.head? := by
          rw [hsource, ← List.cons_append, ← List.append_assoc, ← List.length_append,
            List.getElem?_append_right (Nat.le_refl _), Nat.sub_self, List.head?_eq_getElem?]
        rwa [hspan, String.toList_ofList, hnext]
      · rintro ⟨k, h, -⟩
        cases h
  | @backtick cs hc hres =>
      refine Or.inr (Or.inr
        ⟨?_, ?_, ⟨.after before.length, rfl, ?_, ?_, hc.ne_delimiter, hres⟩⟩)
      · rintro ⟨k, d, h, -⟩
        cases h
      · rintro ⟨span, text, h, -⟩
        cases h
      · rw [hplace]
        exact hrange 1 (Nat.succ_le_succ (Nat.zero_le _))
      · simp [hplace, hsource]

/-- More text does not remove a fault unless it closes an open string or goes on with the
characters that were read for an operator. -/
lemma append (h : LexFault ops delimiter start cs e) (more : List Char)
    (hopen : ∀ d, e = .unterminatedString start d → d ∉ more)
    (hstop : ∀ span text, e = .invalidOperator span text → text.length < cs.length) :
    LexFault ops delimiter start (cs ++ more) e := by
  cases h with
  | @unterminated d cs hl hr hd hcs =>
      have hnot : d ∉ cs ++ more := by
        rw [List.mem_append, not_or]
        exact ⟨hcs, hopen d rfl⟩
      exact .unterminated hl hr hd hnot
  | @misspelt c text rest hc hres hmunch hnot =>
      obtain ⟨d, rest, rfl⟩ : ∃ d tail, rest = d :: tail := by
        refine List.exists_cons_of_ne_nil ?_
        rintro rfl
        have := hstop _ _ rfl
        simp at this
      rw [List.cons_append, List.append_assoc]
      exact .misspelt hc hres hmunch hnot
  | backtick hc hres => exact .backtick hc hres

end LexFault

namespace Language

variable {ops : List String} {delimiter : Option Char} {source : String} {e : LexError}

/-- A text that is not cut into tokens is what was read, white space and a fault. -/
lemma split_of_error (h : (ofCatalog ops delimiter).tokenize source = .error e) :
    ∃ ts offset space c rest,
      (ofCatalog ops delimiter).Reaches 0 source.toList ts offset (space ++ c :: rest) ∧
      Blank space ∧ Text.isBlank c = false ∧
      LexFault ops delimiter (offset.skip space.length) (c :: rest) e := by
  obtain ⟨ts, offset, cs, c, rest, hreach, hc, hl⟩ := reaches_of_error h
  have hcs : cs = cs.takeWhile Text.isBlank ++ c :: rest := by
    rw [← hc, List.takeWhile_append_dropWhile]
  have hblank := not_blank_of_dropWhile hc
  rw [hcs] at hreach
  exact ⟨ts, offset, _, c, rest, hreach, blank_takeWhile cs, hblank,
    (lexeme_eq_error_iff hblank).1 hl⟩

/-- A fault behind white space ends the reading. -/
lemma scan_of_fault {offset : Offset} {space rest : List Char} {c : Char} (hspace : Blank space)
    (hc : Text.isBlank c = false)
    (h : LexFault ops delimiter (offset.skip space.length) (c :: rest) e) (read : List Token) :
    (ofCatalog ops delimiter).scan offset (space ++ c :: rest) read = .error e := by
  have hhead : ∀ d ∈ (c :: rest).head?, Text.isBlank d = false := by
    rintro d ⟨⟩
    exact hc
  refine scan_of_error (dropWhile_append_eq hspace hhead) ?_
  rw [takeWhile_append_eq hspace hhead]
  exact (lexeme_eq_error_iff hc).2 h

/-- What is in front of a fault is read without an error. -/
lemma tokenize_before_fault {ts : List Token} {offset : Offset} {space tail : List Char}
    (h : (ofCatalog ops delimiter).Reaches 0 source.toList ts offset (space ++ tail))
    (hspace : Blank space) :
    ∃ list, (ofCatalog ops delimiter).tokenize
      (String.ofList ((TokenList.ofList ts).text.toList ++ space)) = .ok list := by
  have hhead : ∀ c ∈ space.head?, (space ++ tail).head? = some c := by
    intro c hc
    rw [List.head?_append, hc]
    rfl
  have hscan : (ofCatalog ops delimiter).Scans offset space ⟨[], String.ofList space⟩ :=
    .blank (List.dropWhile_eq_nil_iff.2 hspace)
  refine ⟨⟨ts ++ [], String.ofList space⟩, tokenize_eq_ok_iff.2 ?_⟩
  rw [String.toList_ofList]
  exact (h.exchange hhead).scans hscan

/-- A text that is not cut into tokens is a text that is, in front of the fault that the error
describes. -/
lemma fault_of_error (h : (ofCatalog ops delimiter).tokenize source = .error e) :
    ∃ before c rest, source.toList = before ++ c :: rest ∧
      LexFault ops delimiter (.after before.length) (c :: rest) e ∧
      (∃ list, (ofCatalog ops delimiter).tokenize (String.ofList before) = .ok list) ∧
      ∀ t : String, LexFault ops delimiter (.after before.length) (c :: rest ++ t.toList) e →
        (ofCatalog ops delimiter).tokenize (source ++ t) = .error e := by
  obtain ⟨ts, offset, space, c, rest, hreach, hspace, hc, hfault⟩ := split_of_error h
  obtain ⟨htext, hoffset⟩ := hreach.text_eq
  have hstart : offset.skip space.length =
      .after ((TokenList.ofList ts).text.toList ++ space).length := by
    rw [hoffset, List.length_append, String.length_toList, ← Offset.after_zero, Offset.skip_after,
      Offset.skip_after, Nat.zero_add]
  refine ⟨_, c, rest, by rw [htext, List.append_assoc], hstart ▸ hfault,
    tokenize_before_fault hreach hspace, fun t hfault' => ?_⟩
  have hhead : ∀ d ∈ (space ++ c :: (rest ++ t.toList)).head?,
      (space ++ c :: rest).head? = some d := by
    intro d hd
    cases space <;> exact hd
  have hsource : (source ++ t).toList =
      (TokenList.ofList ts).text.toList ++ (space ++ c :: (rest ++ t.toList)) := by
    rw [String.toList_append, htext]
    simp
  rw [tokenize, hsource, (hreach.exchange hhead).scan_eq]
  exact scan_of_fault hspace hc (hstart.symm ▸ hfault') _

/-- The fault of a text is the fault of every longer text that does not remove it. -/
lemma tokenize_append_of_error (h : (ofCatalog ops delimiter).tokenize source = .error e)
    (hsize : source.length < 2 ^ 32) (t : String)
    (hopen : ∀ k d, e = .unterminatedString k d → d ∉ t.toList)
    (hstop : ∀ span text, e = .invalidOperator span text → span.range.stop < source.length) :
    (ofCatalog ops delimiter).tokenize (source ++ t) = .error e := by
  obtain ⟨before, c, rest, hsource, hfault, -, hlonger⟩ := fault_of_error h
  refine hlonger t (hfault.append t.toList (hopen _) ?_)
  rintro span text rfl
  have hlength : before.length + (c :: rest).length = source.length := by
    rw [← List.length_append, ← hsource, String.length_toList]
  cases hfault with
  | @misspelt c more rest hc hres hmunch hnot =>
      have hle : (c :: more).length ≤ (c :: (more ++ rest)).length := by
        rw [← List.cons_append, List.length_append]
        omega
      have hplace : (Offset.after (before.length + (c :: more).length)).toNat < source.length := by
        rw [← Offset.skip_after]
        exact hstop _ _ rfl
      rw [Offset.toNat_after (by omega)] at hplace
      rw [String.length_ofList]
      omega

/-- A string that is not closed in the longer text is not closed by what was appended. -/
lemma notMem_of_unterminated {k : Offset} {d : Char} {t : String}
    (hsize : (source ++ t).length < 2 ^ 32) (hk : k.toNat < source.length)
    (h : (ofCatalog ops delimiter).tokenize (source ++ t) =
      .error (.unterminatedString k d)) : d ∉ t.toList := by
  obtain ⟨before, c, rest, hsource, hfault, -⟩ := fault_of_error h
  obtain rfl : k = .after before.length := hfault.span_start
  have hlength : before.length + (c :: rest).length = (source ++ t).length := by
    rw [← List.length_append, ← hsource, String.length_toList]
  rw [Offset.toNat_after (by omega)] at hk
  cases hfault with
  | unterminated hl hr hd hcs =>
      have hdrop : (source ++ t).toList.drop (before.length + 1) = rest := by
        rw [hsource, List.drop_append]
        simp
      have hle : before.length + 1 ≤ source.toList.length := by
        rw [String.length_toList]
        exact hk
      rw [String.toList_append, List.drop_append_of_le_length hle] at hdrop
      rw [← hdrop, List.mem_append, not_or] at hcs
      exact hcs.2

/-- **The first fault, precisely described, and stable under more text.**  Where a text of fewer
than `2 ^ 32` characters fails, what is in front of the place is cut into tokens; the place and what
follows are of exactly one of the three sorts; and the longer text fails with the same error, unless
the fault is a string that it closes, or an operator that ended with the text.  The error of a
string that is closed by the longer text is another one, if the longer text has fewer than `2 ^ 32`
characters too. -/
theorem tokenize_error_first_fault (h : (ofCatalog ops delimiter).tokenize source = .error e)
    (hsize : source.length < 2 ^ 32) :
    e.span.range.start < source.length ∧
      (∃ list, (ofCatalog ops delimiter).tokenize ((Span.mk 0 e.span.start).cut source) =
        .ok list) ∧
      ExactlyOne (e.IsUnterminated delimiter source) (e.IsMisspelt ops source)
        (e.IsStray ops delimiter source) ∧
      ∀ t : String,
        ((e.IsStray ops delimiter source ∨
            (e.IsMisspelt ops source ∧ e.span.range.stop < source.length)) →
          (ofCatalog ops delimiter).tokenize (source ++ t) = .error e) ∧
        (e.IsUnterminated delimiter source →
          ((∀ d ∈ delimiter, d ∉ t.toList) →
            (ofCatalog ops delimiter).tokenize (source ++ t) = .error e) ∧
          ((source ++ t).length < 2 ^ 32 →
            (ofCatalog ops delimiter).tokenize (source ++ t) = .error e →
              ∀ d ∈ delimiter, d ∉ t.toList)) := by
  obtain ⟨before, c, rest, hsource, hfault, hbefore, -⟩ := fault_of_error h
  have hlength : before.length + (c :: rest).length = source.length := by
    rw [← List.length_append, ← hsource, String.length_toList]
  have hstart : e.span.range.start = before.length := by
    rw [Span.range, hfault.span_start, Offset.toNat_after (by omega)]
  have hlt : e.span.range.start < source.length := by
    rw [hstart, ← hlength, List.length_cons]
    omega
  refine ⟨hlt, ?_, hfault.describes hsource hsize, fun t => ⟨?_, ?_⟩⟩
  · have hsplit : source = "" ++ (String.ofList before ++ String.ofList (c :: rest)) := by
      rw [← String.toList_inj, hsource]
      simp
    have hrange : (Span.mk 0 e.span.start).range =
        ⟨"".length, "".length + (String.ofList before).length⟩ := by
      have hzero : "".length = 0 := rfl
      rw [hzero, String.length_ofList, Nat.zero_add, ← hstart]
      rfl
    have hcut : (Span.mk 0 e.span.start).cut source = String.ofList before := by
      conv => lhs; rw [hsplit]
      exact Span.cut_middle hrange _
    rwa [hcut]
  · rintro (⟨k, rfl, -⟩ | ⟨⟨span, text, rfl, -⟩, hstop⟩)
    · exact tokenize_append_of_error h hsize t (by simp) (by simp)
    · refine tokenize_append_of_error h hsize t (by simp) ?_
      rintro span text' ⟨⟩
      exact hstop
  · rintro ⟨k, d, rfl, -, rfl, -⟩
    constructor
    · intro hd
      refine tokenize_append_of_error h hsize t ?_ (by simp)
      rintro k' d' ⟨⟩
      exact hd d rfl
    · rintro hsize' h' d' ⟨⟩
      exact notMem_of_unterminated hsize' hlt h'

/-- `+=` begins the operator `+==` and is none; what follows it cannot mend that. -/
theorem tokenize_error_first_fault_misspelt :
    (ofCatalog ["++", "+=="] (some '`')).tokenize "A+= B" =
        .error (.invalidOperator ⟨1, 3⟩ "+=") ∧
      (LexError.invalidOperator ⟨1, 3⟩ "+=").IsMisspelt ["++", "+=="] "A+= B" ∧
      (ofCatalog ["++", "+=="] (some '`')).tokenize "A+= B=`" =
        .error (.invalidOperator ⟨1, 3⟩ "+=") := by
  have h : (ofCatalog ["++", "+=="] (some '`')).tokenize "A+= B" =
      .error (.invalidOperator ⟨1, 3⟩ "+=") := by cbv
  obtain ⟨-, -, hone, hlonger⟩ := tokenize_error_first_fault h (by decide)
  have hmisspelt : (LexError.invalidOperator ⟨1, 3⟩ "+=").IsMisspelt ["++", "+=="] "A+= B" := by
    rcases hone with ⟨⟨k, d, h, -⟩, -⟩ | ⟨-, hmisspelt, -⟩ | ⟨-, -, ⟨k, h, -⟩⟩
    · cases h
    · exact hmisspelt
    · cases h
  exact ⟨h, hmisspelt, (hlonger "=`").1 (Or.inr ⟨hmisspelt, by decide⟩)⟩

/-- Behind `2 ^ 32` spaces a `=` that begins no operator is said to stand at the first of them. -/
theorem tokenize_error_first_fault_overlong :
    ∃ e, (ofCatalog ItemOperator.catalog (some '`')).tokenize (Text.spaces (2 ^ 32) ++ "=") =
        .error e ∧
      ¬ ExactlyOne (e.IsUnterminated (some '`') (Text.spaces (2 ^ 32) ++ "="))
        (e.IsMisspelt ItemOperator.catalog (Text.spaces (2 ^ 32) ++ "="))
        (e.IsStray ItemOperator.catalog (some '`') (Text.spaces (2 ^ 32) ++ "=")) := by
  have hscan : (ofCatalog ItemOperator.catalog (some '`')).scan (.after (2 ^ 32)) "=".toList [] =
      .error (.invalidOperator ⟨0, 1⟩ "=") := by cbv
  have h : (ofCatalog ItemOperator.catalog (some '`')).tokenize (Text.spaces (2 ^ 32) ++ "=") = _ :=
    tokenize_spaces _ _ (by simp [Text.isBlank, Text.blankRanges])
  rw [hscan] at h
  refine ⟨_, h, ?_⟩
  rintro (⟨⟨k, d, he, -⟩, -⟩ | ⟨-, ⟨span, text, he, -, hcut, -⟩, -⟩ | ⟨-, -, ⟨k, he, -⟩⟩)
  · cases he
  · cases he
    rw [Span.cut_spaces (by decide)] at hcut
    exact absurd hcut (by decide)
  · cases he

end Language

end EffectLang
