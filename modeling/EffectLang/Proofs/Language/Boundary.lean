import EffectLang.Proofs.Language.Reach

/-!
# Texts in a row

Behind a parenthesis, behind a logic string and behind white space a text can be cut in two: each
half is cut into tokens as if the other one were not there.  The main statement is
`tokenize_append`, for both outcomes of the second half.

**Nothing leaks forward.**  What the scanner makes of a text depends on the offset of the text in
one way only: the places of tokens and errors move with it (`scan_move`).

**Nothing leaks backward.**  The last token of the first half is the only one that sees a
character of the second half, and it fits whatever comes (`TokenKind.fits_of_shut`).  So the scanner
reads the first half as before and stands where the second one begins (`Scans.reaches_append`).
-/

namespace EffectLang

/-! ## Moved to the right -/

/-- The same token `n` characters further on. -/
def Token.move (n : Nat) (t : Token) : Token := { t with span := t.span.move n }

/-- The same tokens `n` characters further on. -/
def TokenList.move (n : Nat) (list : TokenList) : TokenList :=
  ⟨list.tokens.map (Token.move n), list.trailing⟩

/-- The same fault `n` characters further on. -/
def LexError.move (n : Nat) : LexError → LexError
  | unterminatedString start delimiter => unterminatedString (start.skip n) delimiter
  | invalidOperator span text => invalidOperator (span.move n) text
  | unexpectedCharacter start char => unexpectedCharacter (start.skip n) char

namespace LexContext

/-- What was being read, `n` characters further on. -/
def move (n : Nat) : LexContext → LexContext
  | topLevel => topLevel
  | insideString start => insideString (start.skip n)
  | insideOperator start => insideOperator (start.skip n)

/-- The place at which the token that was being read begins. -/
def place? : LexContext → Option Nat
  | topLevel => none
  | insideString start => some start.toNat
  | insideOperator start => some start.toNat

end LexContext

namespace LexError

variable {n : Nat} {e : LexError}

/-- An error that is moved has its span moved. -/
lemma span_move (n : Nat) (e : LexError) : (e.move n).span = e.span.move n := by
  cases e with
  | invalidOperator span text => rfl
  | unterminatedString start delimiter =>
      exact congrArg (Span.mk _) (Offset.skip_right_comm start n 1)
  | unexpectedCharacter start char =>
      exact congrArg (Span.mk _) (Offset.skip_right_comm start n 1)

lemma context_move (n : Nat) (e : LexError) : (e.move n).context = e.context.move n := by
  cases e <;> rfl

lemma fault_move (n : Nat) (e : LexError) : (e.move n).fault = e.fault := by
  cases e <;> rfl

lemma suggestions_move (n : Nat) (e : LexError) : (e.move n).suggestions = e.suggestions := by
  cases e <;> rfl

/-- Below `2 ^ 32` characters the place in the context is moved exactly. -/
lemma place?_context_move (h : e.span.range.start + n < 2 ^ 32) :
    (e.move n).context.place? = e.context.place?.map (n + ·) := by
  cases e with
  | unexpectedCharacter start char => rfl
  | unterminatedString start delimiter =>
      exact congrArg some ((Offset.toNat_skip h).trans (Nat.add_comm _ _))
  | invalidOperator span text =>
      exact congrArg some ((Offset.toNat_skip h).trans (Nat.add_comm _ _))

end LexError

namespace Language

section Move

variable {L : Language} {n : Nat} {offset start : Offset} {c : Char} {cs : List Char}

lemma logicString_move (d : Char) : logicString d (start.skip n) cs =
    (logicString d start cs).mapError (LexError.move n) := by
  unfold logicString
  split <;> rfl

/-- Where an operator stands has no bearing on how it is read. -/
lemma operator_move : L.operator (start.skip n) c cs =
    (L.operator start c cs).mapError (LexError.move n) := by
  simp only [operator]
  split
  · rfl
  · rw [Offset.skip_right_comm]
    rfl

lemma word_move : L.word (start.skip n) c cs =
    (L.word start c cs).mapError (LexError.move n) := by
  unfold word
  split <;> rfl

/-- Where a lexeme stands has no bearing on how it is read. -/
lemma lexeme_move : L.lexeme (start.skip n) c cs =
    (L.lexeme start c cs).mapError (LexError.move n) := by
  simp only [lexeme, logicString_move, operator_move, word_move]
  split
  · rfl
  · split
    · rfl
    · split
      · rfl
      · split <;> rfl

/-- A token that is made further on is the token moved. -/
lemma token_move (l : Lexeme) (before after : List Char) :
    l.token (offset.skip n) before after = (l.token offset before after).move n := by
  simp only [Lexeme.token, Token.move, Span.move, Offset.skip_skip, Nat.add_comm n, Nat.add_assoc]

/-- A scan `n` characters further on reads the same tokens and finds the same fault, each of them
moved. -/
theorem scan_move (L : Language) (n : Nat) (offset : Offset) (cs : List Char) :
    L.scan (offset.skip n) cs [] =
      ((L.scan offset cs []).map (TokenList.move n)).mapError (LexError.move n) := by
  induction offset, cs using scan_induction L with
  | blank offset cs hc =>
      rw [scan_of_blank hc, scan_of_blank hc]
      rfl
  | fault offset cs c rest e hc hl =>
      have hl' : L.lexeme ((offset.skip n).skip (cs.takeWhile Text.isBlank).length) c rest =
          .error (e.move n) := by
        rw [Offset.skip_right_comm, lexeme_move, hl]
        rfl
      rw [scan_of_error hc hl, scan_of_error hc hl']
      rfl
  | lexeme offset cs c rest l hc hl ih =>
      have hl' : L.lexeme ((offset.skip n).skip (cs.takeWhile Text.isBlank).length) c rest =
          .ok l := by
        rw [Offset.skip_right_comm, lexeme_move, hl]
        rfl
      rw [scan_of_lexeme hc hl, scan_of_lexeme hc hl', Offset.skip_right_comm, token_move,
        scan_read _ _ _ [_], scan_read _ _ _ [l.token _ _ _], ih]
      cases L.scan _ (l.rest.dropWhile Text.isBlank) [] <;> rfl

end Move

end Language

/-! ## Where a text can be cut -/

/-- A kind of token that ends with its last character, whatever comes next. -/
def TokenKind.IsShut : TokenKind → Prop
  | paren _ => True
  | logic _ => True
  | name _ => False
  | number _ => False
  | operator _ => False

/-- A parenthesis, a logic string, or a token with white space behind it. -/
def Token.EndsText (t : Token) : Prop :=
  t.kind.IsShut ∨ ∃ c ∈ t.trailing.toList, Text.isBlank c = true

section Cut

variable {ops : List String} {delimiter : Option Char}

/-- A token that is shut fits in front of anything. -/
lemma TokenKind.fits_of_shut {k : TokenKind} {next next' : Option Char}
    (h : k.Fits ops delimiter next) (hk : k.IsShut) : k.Fits ops delimiter next' := by
  cases k with
  | paren side => trivial
  | logic body => exact h
  | _ => exact hk.elim

/-- A token at the very end of a text is shut by its own last character, or not at all. -/
lemma TokenKind.isShut_of_endsText {k : TokenKind} {rest before : List Char} {offset : Offset}
    (h : ((Lexeme.mk k (k.fence delimiter) rest).token offset before []).EndsText) :
    k.IsShut := by
  rcases h with hshut | ⟨c, hc, -⟩
  · exact hshut
  · cases k with
    | paren side => trivial
    | logic body => trivial
    | _ => simp [Lexeme.token, TokenKind.fence] at hc

namespace Language

/-- The last token of a text fits in front of other text too. -/
lemma fits_append {offset offset' : Offset} {before behind tail : List Char} {k : TokenKind}
    {list : TokenList} (hfits : k.Fits ops delimiter behind.head?)
    (hs : (ofCatalog ops delimiter).Scans offset' (behind.dropWhile Text.isBlank) list)
    (hlast : ∀ t ∈ ((Lexeme.mk k (k.fence delimiter) behind).token offset before
      (behind.takeWhile Text.isBlank) :: list.tokens).getLast?, t.EndsText) :
    k.Fits ops delimiter (behind ++ tail).head? := by
  cases behind with
  | cons c behind => exact hfits
  | nil =>
      cases hs with
      | blank hc => exact TokenKind.fits_of_shut hfits (TokenKind.isShut_of_endsText (hlast _ rfl))
      | lexeme hc hl hs => cases hc

/-- In front of other text that does not begin with white space, the tokens of a text are read as
before. -/
theorem Scans.reaches_append {offset : Offset} {cs tail : List Char} {list : TokenList}
    (h : (ofCatalog ops delimiter).Scans offset cs list) (htrailing : list.trailing = "")
    (hlast : ∀ t ∈ list.tokens.getLast?, t.EndsText)
    (htail : ∀ c ∈ tail.head?, Text.isBlank c = false) :
    ∃ offset', (ofCatalog ops delimiter).Reaches offset (cs ++ tail) list.tokens offset' tail := by
  induction h with
  | @blank offset cs hc =>
      obtain rfl : cs = [] := by simpa using htrailing
      exact ⟨offset, .refl offset tail⟩
  | @lexeme offset cs rest c l list hc hl hs ih =>
      obtain ⟨hfence, hfits⟩ := fits_of_lexeme (not_blank_of_dropWhile hc) hl
      have htext := lexeme_text hl
      obtain ⟨k, fence, behind⟩ := l
      obtain rfl : fence = k.fence delimiter := hfence
      have hinner : ∀ t ∈ list.tokens.getLast?, t.EndsText := by
        intro t ht
        refine hlast t ?_
        rw [List.getLast?_cons, Option.mem_def.1 ht]
        rfl
      have hahead : ∀ c ∈ (behind.dropWhile Text.isBlank ++ tail).head?,
          Text.isBlank c = false := by
        cases hdrop : behind.dropWhile Text.isBlank with
        | nil => exact htail
        | cons d ds =>
            rintro c ⟨⟩
            exact not_blank_of_dropWhile hdrop
      have hbehind : behind ++ tail = behind.takeWhile Text.isBlank ++
          (behind.dropWhile Text.isBlank ++ tail) := by
        rw [← List.append_assoc, List.takeWhile_append_dropWhile]
      have hcs : cs ++ tail = cs.takeWhile Text.isBlank ++
          (k.fence delimiter ++ k.content.toList ++ k.fence delimiter ++ (behind ++ tail)) := by
        conv => lhs; rw [← List.takeWhile_append_dropWhile (p := Text.isBlank) (l := cs)]
        rw [hc, ← htext, Lexeme.text]
        simp only [List.append_assoc]
      have hfits' : k.Fits ops delimiter (behind ++ tail).head? := fits_append hfits hs hlast
      obtain ⟨offset', hreach⟩ := ih htrailing hinner
      rw [hcs, hbehind]
      rw [hbehind] at hfits'
      exact ⟨offset', Reaches.of_fits (blank_takeWhile cs) (blank_takeWhile behind) hahead hfits'
        hreach⟩

/-- A text that does not begin with white space leaves none without an owner. -/
lemma Scans.trailing_eq_of_head {L : Language} {offset : Offset} {cs : List Char} {list : TokenList}
    (h : L.Scans offset cs list) (hhead : ∀ c ∈ cs.head?, Text.isBlank c = false) :
    list.trailing = "" := by
  cases h with
  | blank hc =>
      cases cs with
      | nil => rfl
      | cons c cs =>
          have hblank := List.dropWhile_eq_nil_iff.1 hc c List.mem_cons_self
          rw [hhead c rfl] at hblank
          cases hblank
  | lexeme hc hl hs => exact (Scans.lexeme hc hl hs).trailing_eq (List.cons_ne_nil _ _)

/-- A scan of two texts in a row goes on behind the first one as a scan of the second one. -/
lemma tokenize_append_eq {s t : String} {list : TokenList}
    (h : (ofCatalog ops delimiter).tokenize s = .ok list) (hne : list.tokens ≠ [])
    (hlast : (list.tokens.getLast hne).EndsText)
    (ht : ∀ c ∈ t.toList.head?, Text.isBlank c = false) :
    (ofCatalog ops delimiter).tokenize (s ++ t) =
      (((ofCatalog ops delimiter).tokenize t).map fun list' =>
        ⟨list.tokens ++ list'.tokens.map (Token.move s.length), list'.trailing⟩).mapError
          (LexError.move s.length) := by
  have hscans := tokenize_eq_ok_iff.1 h
  have htrailing := hscans.trailing_eq hne
  have hends : ∀ u ∈ list.tokens.getLast?, u.EndsText := by
    rw [List.getLast?_eq_some_getLast hne]
    rintro u ⟨⟩
    exact hlast
  obtain ⟨offset, hreach⟩ := hscans.reaches_append htrailing hends ht
  have hoffset : offset = (0 : Offset).skip s.length := by
    have hlist : TokenList.ofList list.tokens = list := by rw [TokenList.ofList, ← htrailing]
    rw [hreach.text_eq.2, hlist, hscans.text, String.ofList_toList]
  rw [tokenize, String.toList_append, hreach.scan_eq, List.append_nil, scan_read, hoffset,
    scan_move, List.reverse_reverse, tokenize]
  cases (ofCatalog ops delimiter).scan 0 t.toList [] <;> rfl

/-- **Tokenizing is compositional at token boundaries.**  If a text ends with a parenthesis, a
logic string or white space, and another one does not begin with white space, then the tokens of the
two in a row are those of the first one and then those of the second one, moved behind the first
one; and if the second one has a fault, then the two in a row have that fault, moved likewise.  The
moves are those of 32-bit offsets; below `2 ^ 32` characters in all, every place is moved by the
length of the first text. -/
theorem tokenize_append {s t : String} {list : TokenList}
    (h : (ofCatalog ops delimiter).tokenize s = .ok list) (hne : list.tokens ≠ [])
    (hlast : (list.tokens.getLast hne).EndsText)
    (ht : ∀ c ∈ t.toList.head?, Text.isBlank c = false) :
    (∀ list', (ofCatalog ops delimiter).tokenize t = .ok list' →
        (ofCatalog ops delimiter).tokenize (s ++ t) =
            .ok ⟨list.tokens ++ list'.tokens.map (Token.move s.length), ""⟩ ∧
          ((s ++ t).length < 2 ^ 32 →
            ∀ u ∈ list'.tokens, (u.move s.length).span.range = u.span.range.move s.length)) ∧
      ∀ e, (ofCatalog ops delimiter).tokenize t = .error e →
        ∃ e', (ofCatalog ops delimiter).tokenize (s ++ t) = .error e' ∧
          e' = e.move s.length ∧ e'.span = e.span.move s.length ∧
          e'.context = e.context.move s.length ∧ e'.fault = e.fault ∧
          e'.suggestions = e.suggestions ∧
          ((s ++ t).length < 2 ^ 32 →
            e'.span.range = e.span.range.move s.length ∧
              e'.context.place? = e.context.place?.map (s.length + ·)) := by
  have happend := tokenize_append_eq h hne hlast ht
  constructor
  · intro list' h'
    have hscan := tokenize_eq_ok_iff.1 h'
    have htrailing : list'.trailing = "" := hscan.trailing_eq_of_head ht
    refine ⟨by rw [happend, h', ← htrailing]; rfl, fun hsize u hu => ?_⟩
    rw [String.length_append] at hsize
    have hplaced := hscan.placed (by rw [String.length_toList]; omega)
    obtain ⟨before, after, hsplit⟩ := List.append_of_mem hu
    have hstop := hplaced.stop_le_length hsplit
    have hforward := hplaced.forward hu
    rw [hscan.text, String.ofList_toList] at hstop
    exact Span.range_move (by omega) (by omega)
  · intro e he
    rw [he] at happend
    refine ⟨e.move s.length, happend, rfl, e.span_move _, e.context_move _, e.fault_move _,
      e.suggestions_move _, fun hsize => ?_⟩
    rw [String.length_append] at hsize
    obtain ⟨k, n, hle, hspan⟩ := span_of_tokenize_error he
    have hrange : e.span.range = ⟨k, k + n⟩ := by
      rw [hspan, Span.range, Offset.toNat_after (by omega), Offset.toNat_after (by omega)]
    have hstart : e.span.range.start + s.length < 2 ^ 32 := by
      rw [hrange]
      simp only
      omega
    have hstop : e.span.range.stop + s.length < 2 ^ 32 := by
      rw [hrange]
      simp only
      omega
    rw [LexError.span_move]
    exact ⟨Span.range_move hstart hstop, LexError.place?_context_move hstart⟩

/-- Behind `Gem+= `, a text with two tokens and a text with a fault: `a ` begins the operator `a b`
and is none. -/
theorem tokenize_append_behind_blank :
    (ofCatalog ["+=", "a b"] (some '`')).tokenize ("Gem+= " ++ "`x` a b") =
        .ok ⟨[⟨.name "Gem", ⟨0, 3⟩, "", ""⟩, ⟨.operator "+=", ⟨3, 5⟩, "", " "⟩,
          ⟨.logic "x", ⟨7, 8⟩, "`", "` "⟩, ⟨.operator "a b", ⟨10, 13⟩, "", ""⟩], ""⟩ ∧
      ∃ e, (ofCatalog ["+=", "a b"] (some '`')).tokenize ("Gem+= " ++ "7 a c") = .error e ∧
        e.span = ⟨8, 10⟩ ∧ e.context = .insideOperator 8 ∧ e.context.place? = some (6 + 2) := by
  have h : (ofCatalog ["+=", "a b"] (some '`')).tokenize "Gem+= " =
      .ok ⟨[⟨.name "Gem", ⟨0, 3⟩, "", ""⟩, ⟨.operator "+=", ⟨3, 5⟩, "", " "⟩], ""⟩ := by cbv
  have hok : (ofCatalog ["+=", "a b"] (some '`')).tokenize "`x` a b" =
      .ok ⟨[⟨.logic "x", ⟨1, 2⟩, "`", "` "⟩, ⟨.operator "a b", ⟨4, 7⟩, "", ""⟩], ""⟩ := by cbv
  have herror : (ofCatalog ["+=", "a b"] (some '`')).tokenize "7 a c" =
      .error (.invalidOperator ⟨2, 4⟩ "a ") := by cbv
  have hlast : Token.EndsText ⟨.operator "+=", ⟨3, 5⟩, "", " "⟩ := Or.inr ⟨' ', by decide, rfl⟩
  have hhead : ∀ c ∈ "`x` a b".toList.head?, Text.isBlank c = false := by
    simp [Text.isBlank, Text.blankRanges]
  have hhead' : ∀ c ∈ "7 a c".toList.head?, Text.isBlank c = false := by
    simp [Text.isBlank, Text.blankRanges]
  refine ⟨((tokenize_append h (List.cons_ne_nil _ _) hlast hhead).1 _ hok).1, ?_⟩
  obtain ⟨e, he, -, hspan, hcontext, -, -, hexact⟩ :=
    (tokenize_append h (List.cons_ne_nil _ _) hlast hhead').2 _ herror
  exact ⟨e, he, hspan, hcontext, (hexact (by decide)).2⟩

/-- Behind `2 ^ 32` characters a parenthesis is not moved at all. -/
theorem tokenize_append_overlong :
    ∃ list list' both,
      itemEffects.tokenize (Text.spaces (2 ^ 32 - 1) ++ "(") = .ok list ∧
      (∃ hne, (list.tokens.getLast hne).EndsText) ∧
      (∀ c ∈ ")".toList.head?, Text.isBlank c = false) ∧
      itemEffects.tokenize ")" = .ok list' ∧
      itemEffects.tokenize (Text.spaces (2 ^ 32 - 1) ++ "(" ++ ")") = .ok both ∧
      both.tokens.map (fun u => u.span.range) ≠
        list.tokens.map (fun u => u.span.range) ++ list'.tokens.map fun u =>
          u.span.range.move (Text.spaces (2 ^ 32 - 1) ++ "(").length := by
  have hfirst : itemEffects.scan (.after (2 ^ 32 - 1)) "(".toList [] =
      .ok ⟨[⟨.paren .left, ⟨2 ^ 32 - 1, 0⟩, "", ""⟩], ""⟩ := by cbv
  have hboth : itemEffects.scan (.after (2 ^ 32 - 1)) ("(" ++ ")").toList [] =
      .ok ⟨[⟨.paren .left, ⟨2 ^ 32 - 1, 0⟩, "", ""⟩, ⟨.paren .right, ⟨0, 1⟩, "", ""⟩], ""⟩ := by
    cbv
  have hsecond : itemEffects.tokenize ")" = .ok ⟨[⟨.paren .right, ⟨0, 1⟩, "", ""⟩], ""⟩ := by cbv
  have h : itemEffects.tokenize (Text.spaces (2 ^ 32 - 1) ++ "(") = _ :=
    tokenize_spaces itemEffects _ (by simp [Text.isBlank, Text.blankRanges])
  have h' : itemEffects.tokenize (Text.spaces (2 ^ 32 - 1) ++ ("(" ++ ")")) = _ :=
    tokenize_spaces itemEffects _ (by simp [Text.isBlank, Text.blankRanges])
  rw [hfirst] at h
  rw [hboth] at h'
  rw [← String.append_assoc] at h'
  refine ⟨_, _, _, h, ⟨List.cons_ne_nil _ _, Or.inl trivial⟩,
    by simp [Text.isBlank, Text.blankRanges], hsecond, h', ?_⟩
  rw [String.length_append, Text.length_spaces]
  decide

end Language

end Cut

end EffectLang
