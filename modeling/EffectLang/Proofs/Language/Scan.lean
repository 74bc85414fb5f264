import EffectLang.Language.Tokenize
import EffectLang.Proofs.Text.Span

/-!
# Tokens and the text they were cut from

`Scans` is the scanner as a relation: one constructor for white space to the end, and one for a
lexeme between two stretches of white space.  The equations of the scanner are used here once
(`scan_eq_ok_iff`), and everything else is an induction over `Scans`.

Two things are carried along a scan.  The texts of the tokens make up the text that was read
(`Scans.text`).  And the tokens are stamped (`Stamped`): the span of each one says where its content
stands, behind the texts of the tokens before it and its own leading text (`Scans.stamped`).

**Stamped and placed.**  A stamp is a span, and its offsets have 32 bits.  `Placed` says of tokens
that their spans are their places, without a bound.  In a text of fewer than `2 ^ 32` characters the
two are the same (`Stamped.placed`, `Placed.stamped`); in a longer one the stamps begin again at
zero.

The main statement is `tokenize_lossless`.  It holds of any table of operators, since nothing that
is said here depends on which lexeme was read.
-/

namespace EffectLang

namespace TokenList

lemma text_cons (t : Token) (ts : List Token) (trailing : String) :
    (TokenList.mk (t :: ts) trailing).text = t.fullText ++ (TokenList.mk ts trailing).text := by
  simp [text, String.append_assoc]

lemma text_append (before after : List Token) (trailing : String) :
    (TokenList.mk (before ++ after) trailing).text =
      (ofList before).text ++ (TokenList.mk after trailing).text := by
  simp [text, ofList, String.append_assoc]

end TokenList

/-! ## Placed tokens -/

/-- The span of each token is the place of its content, where the texts of the tokens before it
end. -/
def Placed : Nat → List Token → Prop
  | _, [] => True
  | place, t :: ts =>
      t.span.range =
          ⟨place + t.leading.length, place + t.leading.length + t.content.length⟩ ∧
        Placed (place + t.fullText.length) ts

/-- The span of each token tells the place of its content, where the texts of the tokens before it
end, as far as 32 bits can say. -/
def Stamped : Offset → List Token → Prop
  | _, [] => True
  | offset, t :: ts =>
      t.span = ⟨offset.skip t.leading.length,
          offset.skip (t.leading.length + t.content.length)⟩ ∧
        Stamped (offset.skip t.fullText.length) ts

lemma TokenList.length_text_cons (t : Token) (ts : List Token) :
    (ofList (t :: ts)).text.length = t.fullText.length + (ofList ts).text.length := by
  rw [ofList, text_cons, String.length_append]
  rfl

namespace Placed

variable {place : Nat} {t : Token} {before after ts : List Token}

/-- Lists of tokens have their places together if each of them has, the second one behind the text
of the first. -/
lemma append_iff : Placed place (before ++ after) ↔
    Placed place before ∧ Placed (place + (TokenList.ofList before).text.length) after := by
  induction before generalizing place with
  | nil => simp [Placed, TokenList.ofList, TokenList.text]
  | cons t before ih =>
      simp only [List.cons_append, Placed, ih, TokenList.length_text_cons, and_assoc,
        Nat.add_assoc]

/-- A token has its place behind the text of the tokens before it. -/
lemma range_eq (h : Placed place (before ++ t :: after)) :
    t.span.range = ⟨place + (TokenList.ofList before).text.length + t.leading.length,
      place + (TokenList.ofList before).text.length + t.leading.length + t.content.length⟩ :=
  (append_iff.1 h).2.1

lemma place_le (h : Placed place ts) (ht : t ∈ ts) : place ≤ t.span.range.start := by
  obtain ⟨before, after, rfl⟩ := List.append_of_mem ht
  rw [h.range_eq]
  simp only
  omega

lemma forward (h : Placed place ts) (ht : t ∈ ts) :
    t.span.range.start ≤ t.span.range.stop := by
  obtain ⟨before, after, rfl⟩ := List.append_of_mem ht
  rw [h.range_eq]
  exact Nat.le_add_right _ _

lemma stop_le (h : Placed place (t :: ts)) : t.span.range.stop ≤ place + t.fullText.length := by
  rw [h.1, Token.fullText, String.length_append, String.length_append]
  simp only
  omega

/-- Placed tokens stand in order and do not overlap. -/
lemma pairwise (h : Placed place ts) :
    ts.Pairwise fun s t => s.span.range.stop ≤ t.span.range.start := by
  induction ts generalizing place with
  | nil => exact .nil
  | cons t ts ih =>
      refine .cons (fun u hu => ?_) (ih h.2)
      exact Nat.le_trans h.stop_le (h.2.place_le hu)

/-- A placed token cuts its content out of the text that the tokens make up. -/
lemma cut_eq {list : TokenList} (h : Placed 0 list.tokens)
    (ht : list.tokens = before ++ t :: after) : t.span.cut list.text = t.content := by
  have hrange : t.span.range = ⟨((TokenList.ofList before).text ++ t.leading).length,
      ((TokenList.ofList before).text ++ t.leading).length + t.content.length⟩ := by
    rw [ht] at h
    rw [h.range_eq, String.length_append]
    simp
  have htext : list.text = (TokenList.ofList before).text ++ t.leading ++
      (t.content ++ (t.trailing ++ (TokenList.mk after list.trailing).text)) := by
    have h' : list = ⟨before ++ t :: after, list.trailing⟩ := by rw [← ht]
    rw [h', TokenList.text_append, TokenList.text_cons, Token.fullText]
    simp only [String.append_assoc]
  rw [htext, Span.cut_middle hrange]

/-- No token ends behind the text. -/
lemma stop_le_length {list : TokenList} (h : Placed 0 list.tokens)
    (ht : list.tokens = before ++ t :: after) : t.span.range.stop ≤ list.text.length := by
  have h' : list = ⟨before ++ t :: after, list.trailing⟩ := by rw [← ht]
  rw [ht] at h
  have hstop := (append_iff.1 h).2.stop_le
  rw [h', TokenList.text_append, TokenList.text_cons, String.length_append, String.length_append]
  omega

/-- Whatever the length of the text, the place of a token is what its span says. -/
lemma stamped (h : Placed place ts) : Stamped (.after place) ts := by
  induction ts generalizing place with
  | nil => trivial
  | cons t ts ih =>
      obtain ⟨hstart, hstop⟩ := Stretch.mk.inj h.1
      refine ⟨?_, by rw [Offset.skip_after]; exact ih h.2⟩
      rw [Offset.skip_after, Offset.skip_after, ← Nat.add_assoc, ← hstop, ← hstart,
        Offset.after_toNat, Offset.after_toNat]

end Placed

namespace Stamped

variable {place : Nat} {offset : Offset} {t : Token} {before after ts : List Token}

/-- Lists of tokens are stamped together if each of them is, the second one behind the text of the
first. -/
lemma append_iff : Stamped offset (before ++ after) ↔
    Stamped offset before ∧
      Stamped (offset.skip (TokenList.ofList before).text.length) after := by
  induction before generalizing offset with
  | nil => simp [Stamped, TokenList.ofList, TokenList.text, Offset.skip_zero]
  | cons t before ih =>
      simp only [List.cons_append, Stamped, ih, TokenList.length_text_cons, and_assoc,
        Offset.skip_skip]

/-- The span of a token is the place of its content, in 32 bits. -/
lemma span_eq (h : Stamped 0 (before ++ t :: after)) :
    t.span = ⟨.after ((TokenList.ofList before).text.length + t.leading.length),
      .after ((TokenList.ofList before).text.length + t.leading.length + t.content.length)⟩ := by
  have hspan := (append_iff.1 h).2.1
  rwa [Offset.skip_skip, Offset.skip_skip, ← Offset.after_zero, Offset.skip_after,
    Offset.skip_after, Nat.zero_add, Nat.zero_add, ← Nat.add_assoc] at hspan

/-- Below `2 ^ 32` characters the stamps are exact. -/
lemma placed (h : Stamped (.after place) ts)
    (hsize : place + (TokenList.ofList ts).text.length < 2 ^ 32) : Placed place ts := by
  induction ts generalizing place with
  | nil => trivial
  | cons t ts ih =>
      obtain ⟨hspan, hrest⟩ := h
      rw [TokenList.length_text_cons] at hsize
      have hlength : t.fullText.length =
          t.leading.length + t.content.length + t.trailing.length := by
        rw [Token.fullText, String.length_append, String.length_append]
      rw [Offset.skip_after] at hrest
      refine ⟨?_, ih hrest (by omega)⟩
      rw [hspan, Span.range, Offset.skip_after, Offset.skip_after, Offset.toNat_after (by omega),
        Offset.toNat_after (by omega), Nat.add_assoc]

end Stamped

/-! ## The scanner as a relation -/

namespace Language

/-- A text at an offset is cut into these tokens, and this white space that no token owns. -/
inductive Scans (L : Language) : Offset → List Char → TokenList → Prop
  | blank {offset : Offset} {cs : List Char} (hc : cs.dropWhile Text.isBlank = []) :
      Scans L offset cs ⟨[], String.ofList cs⟩
  | lexeme {offset : Offset} {cs rest : List Char} {c : Char} {l : Lexeme} {list : TokenList}
      (hc : cs.dropWhile Text.isBlank = c :: rest)
      (hl : L.lexeme (offset.skip (cs.takeWhile Text.isBlank).length) c rest = .ok l)
      (hs : Scans L
        (offset.skip ((cs.takeWhile Text.isBlank).length + l.text.length +
          (l.rest.takeWhile Text.isBlank).length))
        (l.rest.dropWhile Text.isBlank) list) :
      Scans L offset cs
        ⟨l.token offset (cs.takeWhile Text.isBlank) (l.rest.takeWhile Text.isBlank) :: list.tokens,
          list.trailing⟩

/-- A reading that exists is made. -/
lemma scan_of_scans {L : Language} {offset : Offset} {cs : List Char} {list : TokenList}
    (h : L.Scans offset cs list) :
    ∀ read, L.scan offset cs read = .ok ⟨read.reverse ++ list.tokens, list.trailing⟩ := by
  induction h with
  | blank hc =>
      intro read
      rw [scan_of_blank hc, List.append_nil]
  | lexeme hc hl _ ih =>
      intro read
      rw [scan_of_lexeme hc hl, ih, List.reverse_cons, List.append_assoc, List.singleton_append]

/-- To show something of every place in a text, show it where white space is all there is, in front
of a fault, and in front of a lexeme if it holds behind the lexeme and its white space. -/
@[elab_as_elim]
lemma scan_induction (L : Language) {motive : Offset → List Char → Prop}
    (blank : ∀ offset cs, cs.dropWhile Text.isBlank = [] → motive offset cs)
    (fault : ∀ offset cs c rest e, cs.dropWhile Text.isBlank = c :: rest →
      L.lexeme (offset.skip (cs.takeWhile Text.isBlank).length) c rest = .error e → motive offset cs)
    (lexeme : ∀ offset cs c rest l, cs.dropWhile Text.isBlank = c :: rest →
      L.lexeme (offset.skip (cs.takeWhile Text.isBlank).length) c rest = .ok l →
      motive
        (offset.skip ((cs.takeWhile Text.isBlank).length + l.text.length +
          (l.rest.takeWhile Text.isBlank).length))
        (l.rest.dropWhile Text.isBlank) →
      motive offset cs)
    (offset : Offset) (cs : List Char) : motive offset cs := by
  -- The rest behind a lexeme and its white space is shorter than the text.
  induction hn : cs.length using Nat.strongRecOn generalizing offset cs with
  | ind n ih =>
      cases hc : cs.dropWhile Text.isBlank with
      | nil => exact blank offset cs hc
      | cons c rest =>
          cases hl : L.lexeme (offset.skip (cs.takeWhile Text.isBlank).length) c rest with
          | error e => exact fault offset cs c rest e hc hl
          | ok l =>
              have hrest := ih _ (hn ▸ length_dropWhile_rest_lt hc hl)
              exact lexeme offset cs c rest l hc hl (hrest _ _ rfl)

/-- A reading that is made exists. -/
lemma scans_of_scan {L : Language} {offset : Offset} {cs : List Char} {read : List Token}
    {list : TokenList} (h : L.scan offset cs read = .ok list) :
    ∃ new : TokenList,
      L.Scans offset cs new ∧ list = ⟨read.reverse ++ new.tokens, new.trailing⟩ := by
  induction offset, cs using scan_induction L generalizing read with
  | blank offset cs hc =>
      rw [scan_of_blank hc] at h
      cases h
      exact ⟨_, .blank hc, by rw [List.append_nil]⟩
  | fault offset cs c rest e hc hl =>
      rw [scan_of_error hc hl] at h
      cases h
  | lexeme offset cs c rest l hc hl ih =>
      rw [scan_of_lexeme hc hl] at h
      obtain ⟨new, hnew, rfl⟩ := ih h
      refine ⟨_, .lexeme hc hl hnew, ?_⟩
      rw [List.reverse_cons, List.append_assoc, List.singleton_append]

/-- The tokens of a text are those of its reading. -/
theorem tokenize_eq_ok_iff {L : Language} {source : String} {list : TokenList} :
    L.tokenize source = .ok list ↔ L.Scans 0 source.toList list := by
  constructor
  · intro h
    obtain ⟨new, hnew, rfl⟩ := scans_of_scan h
    exact hnew
  · intro h
    exact scan_of_scans h []

/-! ## What a scan keeps -/

lemma fullText_token (l : Lexeme) (offset : Offset) (before after : List Char) :
    (l.token offset before after).fullText = String.ofList (before ++ (l.text ++ after)) := by
  rw [← String.toList_inj]
  simp [Lexeme.token, Lexeme.text, Token.fullText, Token.content]

namespace Scans

variable {L : Language} {offset : Offset} {cs : List Char} {list : TokenList}

/-- No character is lost. -/
theorem text (h : L.Scans offset cs list) : list.text = String.ofList cs := by
  induction h with
  | blank hc => simp [TokenList.text]
  | @lexeme offset cs rest c l list hc hl _ ih =>
      have hcs : cs = cs.takeWhile Text.isBlank ++ (l.text ++
          (l.rest.takeWhile Text.isBlank ++ l.rest.dropWhile Text.isBlank)) := by
        rw [List.takeWhile_append_dropWhile, lexeme_text hl, ← hc,
          List.takeWhile_append_dropWhile]
      rw [TokenList.text_cons, ih, fullText_token]
      conv => rhs; rw [hcs]
      rw [← String.ofList_append, List.append_assoc, List.append_assoc]

/-- Every token is stamped with its place. -/
theorem stamped (h : L.Scans offset cs list) : Stamped offset list.tokens := by
  induction h with
  | blank hc => trivial
  | @lexeme offset cs rest c l list hc hl _ ih =>
      refine ⟨?_, ?_⟩
      · simp [Lexeme.token, Token.content, Offset.skip_skip]
      · rw [fullText_token, String.length_ofList, List.length_append, List.length_append,
          ← Nat.add_assoc]
        exact ih

/-- In a text of fewer than `2 ^ 32` characters every token stands in its place. -/
theorem placed (h : L.Scans 0 cs list) (hsize : cs.length < 2 ^ 32) : Placed 0 list.tokens := by
  have hstamped : Stamped (.after 0) list.tokens := h.stamped
  refine hstamped.placed ?_
  have hlength : (TokenList.ofList list.tokens).text.length + list.trailing.length = cs.length := by
    rw [← String.length_ofList (l := cs), ← h.text, ← String.length_append]
    simp [TokenList.text, TokenList.ofList]
  omega

/-- White space that no token owns is all there is. -/
lemma trailing_eq (h : L.Scans offset cs list) (hne : list.tokens ≠ []) : list.trailing = "" := by
  induction h with
  | blank hc => exact absurd rfl hne
  | @lexeme offset cs rest c l list hc hl hs ih =>
      cases hs with
      | blank hb =>
          -- What lies behind the white space after a lexeme does not begin with white space.
          rw [List.dropWhile_idempotent] at hb
          rw [hb]
      | lexeme => exact ih (List.cons_ne_nil _ _)

end Scans

/-! ## White space in front -/

/-- Tokens that were read before stand in front of those that are read. -/
lemma scan_read (L : Language) (offset : Offset) (cs : List Char) (read : List Token) :
    L.scan offset cs read =
      (L.scan offset cs []).map fun list => ⟨read.reverse ++ list.tokens, list.trailing⟩ := by
  induction offset, cs using scan_induction L generalizing read with
  | blank offset cs hc =>
      rw [scan_of_blank hc, scan_of_blank hc]
      simp [Except.map]
  | fault offset cs c rest e hc hl =>
      rw [scan_of_error hc hl, scan_of_error hc hl]
      rfl
  | lexeme offset cs c rest l hc hl ih =>
      rw [scan_of_lexeme hc hl, scan_of_lexeme hc hl, ih (_ :: read), ih [_]]
      cases L.scan _ (l.rest.dropWhile Text.isBlank) [] with
      | error e => rfl
      | ok list => simp [Except.map]

end Language

/-- The text of `n` spaces. -/
def Text.spaces (n : Nat) : String := String.ofList (List.replicate n ' ')

lemma Text.length_spaces (n : Nat) : (spaces n).length = n := by
  rw [spaces, String.length_ofList, List.length_replicate]

/-- The first character of a text behind spaces is a space. -/
lemma Span.cut_spaces {n : Nat} (hn : 0 < n) (source : String) :
    (Span.mk 0 1).cut (Text.spaces n ++ source) = " " := by
  obtain ⟨n, rfl⟩ := Nat.exists_eq_succ_of_ne_zero hn.ne'
  rw [cut, Text.spaces, String.toList_append, String.toList_ofList, List.replicate_succ]
  rfl

/-- White space in front of a text belongs to its first token, or to the list if there is none. -/
def TokenList.behind (space : String) : TokenList → TokenList
  | ⟨[], trailing⟩ => ⟨[], space ++ trailing⟩
  | ⟨t :: ts, trailing⟩ => ⟨{ t with leading := space ++ t.leading } :: ts, trailing⟩

namespace Language

/-- A token behind white space is the token at its own place, with the white space put in front. -/
lemma token_behind (l : Lexeme) (offset : Offset) (before after : List Char) :
    l.token offset before after =
      { l.token (offset.skip before.length) [] after with
        leading := String.ofList before ++ (l.token (offset.skip before.length) [] after).leading }
    := by
  simp [Lexeme.token, Offset.skip_skip]

/-- Behind spaces a text is read from a later offset on, and is otherwise what it was. -/
theorem tokenize_spaces (L : Language) (n : Nat) {source : String}
    (hhead : ∀ c ∈ source.toList.head?, Text.isBlank c = false) :
    L.tokenize (Text.spaces n ++ source) =
      (L.scan (.after n) source.toList []).map (TokenList.behind (Text.spaces n)) := by
  have hspace : ∀ c ∈ List.replicate n ' ', Text.isBlank c = true := by
    intro c hc
    rw [List.eq_of_mem_replicate hc]
    decide
  have hskip : (0 : Offset).skip n = .after n := by
    rw [← Offset.after_zero, Offset.skip_after, Nat.zero_add]
  rw [tokenize, String.toList_append, Text.spaces, String.toList_ofList]
  cases hsource : source.toList with
  | nil =>
      rw [List.append_nil, scan_of_blank (List.dropWhile_eq_nil_iff.2 hspace), scan_of_blank rfl]
      simp [Except.map, TokenList.behind]
  | cons c rest =>
      have hc : Text.isBlank c = false := hhead c (by rw [hsource]; rfl)
      have hdrop : (List.replicate n ' ' ++ c :: rest).dropWhile Text.isBlank = c :: rest := by
        rw [List.dropWhile_append_of_pos hspace, List.dropWhile_cons_of_neg (by simp [hc])]
      have htake : (List.replicate n ' ' ++ c :: rest).takeWhile Text.isBlank =
          List.replicate n ' ' := by
        rw [List.takeWhile_append_of_pos hspace, List.takeWhile_cons_of_neg (by simp [hc]),
          List.append_nil]
      have hdrop' : (c :: rest).dropWhile Text.isBlank = c :: rest :=
        List.dropWhile_cons_of_neg (by simp [hc])
      have htake' : (c :: rest).takeWhile Text.isBlank = [] :=
        List.takeWhile_cons_of_neg (by simp [hc])
      cases hl : L.lexeme (.after n) c rest with
      | error e =>
          rw [scan_of_error hdrop (by rw [htake, List.length_replicate, hskip, hl]),
            scan_of_error hdrop' (by rw [htake', List.length_nil, Offset.skip_zero, hl])]
          rfl
      | ok l =>
          rw [scan_of_lexeme hdrop (by rw [htake, List.length_replicate, hskip, hl]),
            scan_of_lexeme hdrop' (by rw [htake', List.length_nil, Offset.skip_zero, hl]),
            htake, htake', token_behind l 0, List.length_replicate, List.length_nil, Nat.zero_add,
            Nat.add_assoc, ← Offset.skip_skip, hskip, scan_read _ _ _ [_],
            scan_read _ _ _ [l.token _ _ _]]
          cases L.scan _ (l.rest.dropWhile Text.isBlank) [] <;> rfl

/-- Two names, of which the second one stands behind `2 ^ 32` characters. -/
lemma tokenize_behind_spaces :
    ∃ t u, itemEffects.tokenize (Text.spaces (2 ^ 32 - 2) ++ "a b") = .ok ⟨[t, u], ""⟩ ∧
      0 < t.fullText.length ∧ u.content = "b" ∧ u.leading = "" ∧ u.span = ⟨0, 1⟩ := by
  have hscan : itemEffects.scan (.after (2 ^ 32 - 2)) "a b".toList [] =
      .ok ⟨[⟨.name "a", ⟨4294967294, 4294967295⟩, "", " "⟩, ⟨.name "b", ⟨0, 1⟩, "", ""⟩], ""⟩ := by
    cbv
  have h : itemEffects.tokenize (Text.spaces (2 ^ 32 - 2) ++ "a b") = _ :=
    tokenize_spaces itemEffects _ (by simp [Text.isBlank, Text.blankRanges])
  rw [hscan] at h
  refine ⟨_, _, h, ?_, rfl, rfl, rfl⟩
  rw [Token.fullText, String.length_append]
  exact Nat.lt_add_left _ (by decide)

/-- **Tokenizing loses nothing and places every span exactly.**  The tokens make up the text; the
content of each one stands where the texts before it end, behind its leading text, and its span says
so in 32 bits.  In a text of fewer than `2 ^ 32` characters the spans are these places themselves,
and the text has there what the tokens contain.  So the spans lie in the text, in order, and do not
overlap, and a number is written in the text as it prints. -/
theorem tokenize_lossless {L : Language} {source : String} {list : TokenList}
    (h : L.tokenize source = .ok list) :
    list.text = source ∧
      (∀ (before : List Token) (t : Token) (after : List Token),
        list.tokens = before ++ t :: after →
          t.span = ⟨.after ((TokenList.ofList before).text.length + t.leading.length),
            .after ((TokenList.ofList before).text.length + t.leading.length +
              t.content.length)⟩) ∧
      (source.length < 2 ^ 32 →
        (∀ (before : List Token) (t : Token) (after : List Token),
          list.tokens = before ++ t :: after →
            t.span.range = ⟨(TokenList.ofList before).text.length + t.leading.length,
              (TokenList.ofList before).text.length + t.leading.length + t.content.length⟩ ∧
            t.span.cut source = t.content ∧
            t.span.range.start ≤ t.span.range.stop ∧ t.span.range.stop ≤ source.length) ∧
        (list.tokens.Pairwise fun s t => s.span.range.stop ≤ t.span.range.start) ∧
        ∀ t ∈ list.tokens, ∀ value, t.kind = .number value →
          t.span.cut source = Text.Numeral.ofInt value.toInt) := by
  have hscan := tokenize_eq_ok_iff.1 h
  have htext : list.text = source := by rw [hscan.text, String.ofList_toList]
  refine ⟨htext, fun before t after ht => (ht ▸ hscan.stamped).span_eq, fun hsize => ?_⟩
  have hplaced : Placed 0 list.tokens := hscan.placed (by rwa [String.length_toList])
  have hcut : ∀ before t after, list.tokens = before ++ t :: after →
      t.span.cut source = t.content := by
    intro before t after ht
    rw [← htext, hplaced.cut_eq ht]
  refine ⟨fun before t after ht => ?_, hplaced.pairwise, ?_⟩
  · have hrange := (ht ▸ hplaced).range_eq
    rw [Nat.zero_add] at hrange
    refine ⟨hrange, hcut before t after ht, ?_, ?_⟩
    · rw [hrange]
      simp
    · rw [← htext]
      exact hplaced.stop_le_length ht
  · intro t ht value hkind
    obtain ⟨before, after, hsplit⟩ := List.append_of_mem ht
    rw [hcut before t after hsplit, Token.content, hkind]
    rfl

/-- An operator with white space in it, a negative number and a logic string in one text. -/
theorem tokenize_lossless_mixed :
    ∃ list, (ofCatalog ["+=", "a b"] (some '`')).tokenize "  Gem+=-7 a b`x y` " = .ok list ∧
      list = ⟨[⟨.name "Gem", ⟨2, 5⟩, "  ", ""⟩, ⟨.operator "+=", ⟨5, 7⟩, "", ""⟩,
        ⟨.number (-7), ⟨7, 9⟩, "", " "⟩, ⟨.operator "a b", ⟨10, 13⟩, "", ""⟩,
        ⟨.logic "x y", ⟨14, 17⟩, "`", "` "⟩], ""⟩ ∧
      "  Gem+=-7 a b`x y` ".length < 2 ^ 32 ∧ list.text = "  Gem+=-7 a b`x y` " ∧
      ∀ t ∈ list.tokens, t.span.cut "  Gem+=-7 a b`x y` " = t.content := by
  have h : (ofCatalog ["+=", "a b"] (some '`')).tokenize "  Gem+=-7 a b`x y` " =
      .ok ⟨[⟨.name "Gem", ⟨2, 5⟩, "  ", ""⟩, ⟨.operator "+=", ⟨5, 7⟩, "", ""⟩,
        ⟨.number (-7), ⟨7, 9⟩, "", " "⟩, ⟨.operator "a b", ⟨10, 13⟩, "", ""⟩,
        ⟨.logic "x y", ⟨14, 17⟩, "`", "` "⟩], ""⟩ := by cbv
  have hsize : "  Gem+=-7 a b`x y` ".length < 2 ^ 32 := by decide
  refine ⟨_, h, rfl, hsize, (tokenize_lossless h).1, fun t ht => ?_⟩
  obtain ⟨before, after, hsplit⟩ := List.append_of_mem ht
  exact (((tokenize_lossless h).2.2 hsize).1 before t after hsplit).2.1

/-- Behind `2 ^ 32` characters a token is stamped as if it stood at the beginning. -/
theorem tokenize_lossless_overlong :
    ∃ (list : TokenList) (before : List Token) (t : Token) (after : List Token),
      itemEffects.tokenize (Text.spaces (2 ^ 32 - 2) ++ "a b") = .ok list ∧
      list.tokens = before ++ t :: after ∧ t.content = "b" ∧ t.span = ⟨0, 1⟩ ∧
      t.span.range ≠ ⟨(TokenList.ofList before).text.length + t.leading.length,
        (TokenList.ofList before).text.length + t.leading.length + t.content.length⟩ ∧
      t.span.cut (Text.spaces (2 ^ 32 - 2) ++ "a b") ≠ t.content := by
  obtain ⟨t, u, h, hpos, hcontent, -, hspan⟩ := tokenize_behind_spaces
  refine ⟨_, [t], u, [], h, rfl, hcontent, hspan, fun hrange => ?_, ?_⟩
  · rw [hspan, TokenList.length_text_cons] at hrange
    have hstart := (Stretch.mk.inj hrange).1
    rw [UInt32.toNat_zero] at hstart
    omega
  · rw [hspan, hcontent, Span.cut_spaces (by decide)]
    decide

end Language

end EffectLang
