import EffectLang.Language.Tokenize
import EffectLang.Proofs.Operator.Munch
import EffectLang.Proofs.Token.Number
import Mathlib

/-!
# What a lexeme is

`TokenKind.Fits ops delimiter next k` are the lexical rules of a language: a token of kind `k` may
stand in a text in front of the character `next`.  They speak of the catalog and of the delimiter
alone.  The main statement is `lexeme_eq_ok_iff`: the reader takes a lexeme off a text exactly when
its characters are the beginning of the text and it fits what follows.  So a lexeme depends on
one character behind it and on nothing else, and all that is said about texts that are cut, joined
or changed comes from this.

`LexFault` lists in the same way what a text can begin with instead of a lexeme
(`lexeme_eq_error_iff`).

Both are proved first of the readers of logic strings, operators and words, and then put together
along the order in which the reader tries them (`char_cases`).
-/

namespace EffectLang

/-! ## Where a run of characters ends -/

section Run

variable {p : Char → Bool} {run rest : List Char}

/-- A run ends in front of the first character that does not belong to it. -/
lemma takeWhile_append_eq (h : ∀ c ∈ run, p c = true) (h' : ∀ c ∈ rest.head?, p c = false) :
    (run ++ rest).takeWhile p = run := by
  rw [List.takeWhile_append_of_pos h]
  cases rest with
  | nil => rw [List.takeWhile_nil, List.append_nil]
  | cons c rest => simp [h' c rfl]

lemma dropWhile_append_eq (h : ∀ c ∈ run, p c = true) (h' : ∀ c ∈ rest.head?, p c = false) :
    (run ++ rest).dropWhile p = rest := by
  rw [List.dropWhile_append_of_pos h]
  cases rest with
  | nil => rfl
  | cons c rest => simp [h' c rfl]

lemma eq_false_of_head?_dropWhile (cs : List Char) : ∀ c ∈ (cs.dropWhile p).head?, p c = false := by
  intro c hc
  have h := List.head?_dropWhile_not p cs
  rwa [Option.mem_def.1 hc] at h

end Run

/-! ## The rules -/

/-- A character that is neither white space nor a parenthesis nor the delimiter. -/
structure PlainChar (delimiter : Option Char) (c : Char) : Prop where
  not_blank : Text.isBlank c = false
  ne_left : c ≠ '('
  ne_right : c ≠ ')'
  ne_delimiter : delimiter ≠ some c

/-- A character of names and numbers. -/
structure WordChar (ops : List String) (delimiter : Option Char) (c : Char) : Prop
    extends PlainChar delimiter c where
  ne_backtick : c ≠ '`'
  not_reserved : ∀ op ∈ ops, c ∉ op.toList

/-- A whole word, in front of `next`. -/
structure Word (ops : List String) (delimiter : Option Char) (text : List Char)
    (next : Option Char) : Prop where
  ne_nil : text ≠ []
  wordChar : ∀ c ∈ text, WordChar ops delimiter c
  stops : ∀ c ∈ next, ¬ WordChar ops delimiter c

namespace TokenKind

/-- What encloses the content of a token in the text. -/
def fence (delimiter : Option Char) : TokenKind → List Char
  | name _ => []
  | number _ => []
  | operator _ => []
  | paren _ => []
  | logic _ => delimiter.toList

/-- The lexical rules: a token of this kind can stand in front of `next`, or at the end. -/
def Fits (ops : List String) (delimiter next : Option Char) : TokenKind → Prop
  | name text =>
      Word ops delimiter text.toList next ∧ ∀ value : Int32, text ≠ Text.Numeral.ofInt value.toInt
  | number value => Word ops delimiter (Text.Numeral.ofInt value.toInt).toList next
  | operator symbol =>
      symbol ∈ ops ∧ (∃ c cs, symbol.toList = c :: cs ∧ PlainChar delimiter c) ∧
        ∀ c ∈ next, ¬ Begins ops (symbol.toList ++ [c])
  | paren _ => True
  | logic body =>
      ∃ d, delimiter = some d ∧ d ≠ '(' ∧ d ≠ ')' ∧ Text.isBlank d = false ∧ d ∉ body.toList

/-- What fits in front of a character fits at the end of a text. -/
lemma Fits.of_none {ops : List String} {delimiter next : Option Char} {k : TokenKind}
    (h : k.Fits ops delimiter next) : k.Fits ops delimiter none := by
  cases k with
  | name text => exact ⟨⟨h.1.ne_nil, h.1.wordChar, by simp⟩, h.2⟩
  | number value => exact ⟨h.ne_nil, h.wordChar, by simp⟩
  | operator symbol => exact ⟨h.1, h.2.1, by simp⟩
  | paren side => trivial
  | logic body => exact h

/-- A word fits as what it stands for. -/
lemma fits_ofWord {ops : List String} {delimiter next : Option Char} {word : String}
    (h : Word ops delimiter word.toList next) : (ofWord word).Fits ops delimiter next := by
  by_cases hnumber : ∃ value : Int32, word = Text.Numeral.ofInt value.toInt
  · obtain ⟨value, rfl⟩ := hnumber
    rw [ofWord_eq_number_iff.2 rfl]
    exact h
  · have hname := not_exists.1 hnumber
    rw [ofWord_eq_name_iff.2 hname]
    exact ⟨h, hname⟩

end TokenKind

/-- A text at offset `start` begins with a fault: a string without an end, characters that are
read for an operator in vain, or a backtick that has no part in the language. -/
inductive LexFault (ops : List String) (delimiter : Option Char) (start : Offset) :
    List Char → LexError → Prop
  | unterminated {d : Char} {cs : List Char} (hl : d ≠ '(') (hr : d ≠ ')')
      (hd : delimiter = some d) (hcs : d ∉ cs) :
      LexFault ops delimiter start (d :: cs) (.unterminatedString start d)
  | misspelt {c : Char} {more rest : List Char} (hc : PlainChar delimiter c)
      (hres : ∃ op ∈ ops, c ∈ op.toList) (hmunch : Munch ops (c :: more) rest.head?)
      (hnot : String.ofList (c :: more) ∉ ops) :
      LexFault ops delimiter start (c :: (more ++ rest))
        (.invalidOperator ⟨start, start.skip (c :: more).length⟩ (String.ofList (c :: more)))
  | backtick {cs : List Char} (hc : PlainChar delimiter '`') (hres : ∀ op ∈ ops, '`' ∉ op.toList) :
      LexFault ops delimiter start ('`' :: cs) (.unexpectedCharacter start '`')

namespace Language

variable {ops : List String} {delimiter : Option Char} {start : Offset} {c : Char} {cs : List Char}

/-! ## The tests of the reader -/

lemma isDelimiter_ofCatalog : (ofCatalog ops delimiter).isDelimiter c = true ↔
    delimiter = some c := by
  simp [isDelimiter, ofCatalog]

lemma isReserved_ofCatalog_iff : (ofCatalog ops delimiter).isReserved c = true ↔
    ∃ op ∈ ops, c ∈ op.toList :=
  OperatorTable.isReserved_ofCatalog

/-- The characters of words, told from the catalog and the delimiter. -/
lemma isWordChar_ofCatalog : (ofCatalog ops delimiter).isWordChar c = true ↔
    WordChar ops delimiter c := by
  simp only [isWordChar, Bool.and_eq_true, Bool.not_eq_true', bne_iff_ne, ne_eq,
    ← Bool.not_eq_true, isDelimiter_ofCatalog, isReserved_ofCatalog_iff, not_exists, not_and]
  constructor
  · rintro ⟨⟨⟨⟨⟨hb, hl⟩, hr⟩, ht⟩, hd⟩, ho⟩
    exact ⟨⟨Bool.eq_false_iff.2 hb, hl, hr, hd⟩, ht, ho⟩
  · rintro ⟨⟨hb, hl, hr, hd⟩, ht, ho⟩
    exact ⟨⟨⟨⟨⟨Bool.eq_false_iff.1 hb, hl⟩, hr⟩, ht⟩, hd⟩, ho⟩

/-! ## Logic strings -/

lemma logicString_of_mem {d : Char} {body rest : List Char} (h : d ∉ body) :
    logicString d start (body ++ d :: rest) =
      .ok ⟨.logic (String.ofList body), [d], rest⟩ := by
  have hbody : ∀ c ∈ body, (c != d) = true := by
    intro c hc
    simpa using ne_of_mem_of_not_mem hc h
  have hstop : ∀ c ∈ (d :: rest).head?, (c != d) = false := by simp
  rw [logicString, dropWhile_append_eq hbody hstop, takeWhile_append_eq hbody hstop]

lemma logicString_of_notMem {d : Char} (h : d ∉ cs) :
    logicString d start cs = .error (.unterminatedString start d) := by
  have hnil : cs.dropWhile (· != d) = [] := by
    rw [List.dropWhile_eq_nil_iff]
    intro c hc
    simpa using ne_of_mem_of_not_mem hc h
  simp [logicString, hnil]

/-- A logic string is read exactly up to its delimiter. -/
lemma logicString_eq_ok_iff {d : Char} {l : Lexeme} :
    logicString d start cs = .ok l ↔
      ∃ body rest, d ∉ body ∧ cs = body ++ d :: rest ∧
        l = ⟨.logic (String.ofList body), [d], rest⟩ := by
  constructor
  · intro h
    by_cases hd : d ∈ cs
    · obtain ⟨body, rest, rfl, hbody⟩ := List.eq_append_cons_of_mem hd
      rw [logicString_of_mem hbody] at h
      cases h
      exact ⟨body, rest, hbody, rfl, rfl⟩
    · rw [logicString_of_notMem hd] at h
      cases h
  · rintro ⟨body, rest, hbody, rfl, rfl⟩
    exact logicString_of_mem hbody

/-- A logic string fails exactly if its delimiter does not come again. -/
lemma logicString_eq_error_iff {d : Char} {e : LexError} :
    logicString d start cs = .error e ↔ d ∉ cs ∧ e = .unterminatedString start d := by
  constructor
  · intro h
    have hd : d ∉ cs := by
      intro hd
      obtain ⟨body, rest, rfl, hbody⟩ := List.eq_append_cons_of_mem hd
      rw [logicString_of_mem hbody] at h
      cases h
    rw [logicString_of_notMem hd] at h
    cases h
    exact ⟨hd, rfl⟩
  · rintro ⟨hd, rfl⟩
    exact logicString_of_notMem hd

/-! ## Operators -/

/-- The characters that the reader of operators takes, and its verdict on them. -/
lemma operator_of_munch {text rest : List Char} (htext : c :: cs = text ++ rest)
    (hne : text ≠ []) (h : Munch ops text rest.head?) :
    (ofCatalog ops delimiter).operator start c cs =
      if String.ofList text ∈ ops then .ok ⟨.operator (String.ofList text), [], rest⟩
      else .error (.invalidOperator ⟨start, start.skip text.length⟩ (String.ofList text)) := by
  obtain ⟨c', more, rfl⟩ := List.exists_cons_of_ne_nil hne
  rw [List.cons_append, List.cons.injEq] at htext
  obtain ⟨rfl, rfl⟩ := htext
  have htaken := Trie.extend_ofList_eq_iff.2 ⟨rest, rfl, h⟩
  have hvalue : (((Trie.ofList ops).advance c).extend (more ++ rest)).2.value.isSome = true ↔
      String.ofList (c :: more) ∈ ops := by
    rw [Trie.extend_snd, htaken, ← Trie.advanceAll_cons, Option.isSome_iff_exists]
    simp only [Trie.value_advanceAll_ofList_eq_some_iff]
    constructor
    · rintro ⟨s, hs, -, hpath⟩
      rwa [hpath, String.ofList_toList]
    · intro hmem
      exact ⟨_, hmem, by simp [← String.toList_inj], by rw [String.toList_ofList]⟩
  simp only [operator, ofCatalog, OperatorTable.ofCatalog, htaken, hvalue, List.drop_left]

/-- An operator is read exactly if the greedy reading ends at one. -/
lemma operator_eq_ok_iff {l : Lexeme} :
    (ofCatalog ops delimiter).operator start c cs = .ok l ↔
      ∃ text rest, c :: cs = text ++ rest ∧ text ≠ [] ∧ Munch ops text rest.head? ∧
        String.ofList text ∈ ops ∧ l = ⟨.operator (String.ofList text), [], rest⟩ := by
  constructor
  · intro h
    obtain ⟨rest, hcs, hmunch⟩ := Trie.extend_ofList_munch ops c cs
    have htext : c :: cs = c :: (((Trie.ofList ops).advance c).extend cs).1 ++ rest := by
      rw [List.cons_append, ← hcs]
    rw [operator_of_munch htext (List.cons_ne_nil _ _) hmunch] at h
    split at h
    · rename_i hmem
      cases h
      exact ⟨_, _, htext, List.cons_ne_nil _ _, hmunch, hmem, rfl⟩
    · cases h
  · rintro ⟨text, rest, htext, hne, hmunch, hmem, rfl⟩
    rw [operator_of_munch htext hne hmunch, if_pos hmem]

/-- An operator fails exactly if the greedy reading ends at none, and the error shows what was
taken. -/
lemma operator_eq_error_iff {e : LexError} :
    (ofCatalog ops delimiter).operator start c cs = .error e ↔
      ∃ text rest, c :: cs = text ++ rest ∧ text ≠ [] ∧ Munch ops text rest.head? ∧
        String.ofList text ∉ ops ∧
        e = .invalidOperator ⟨start, start.skip text.length⟩ (String.ofList text) := by
  constructor
  · intro h
    obtain ⟨rest, hcs, hmunch⟩ := Trie.extend_ofList_munch ops c cs
    have htext : c :: cs = c :: (((Trie.ofList ops).advance c).extend cs).1 ++ rest := by
      rw [List.cons_append, ← hcs]
    rw [operator_of_munch htext (List.cons_ne_nil _ _) hmunch] at h
    split at h
    · cases h
    · rename_i hmem
      cases h
      exact ⟨_, _, htext, List.cons_ne_nil _ _, hmunch, hmem, rfl⟩
  · rintro ⟨text, rest, htext, hne, hmunch, hmem, rfl⟩
    rw [operator_of_munch htext hne hmunch, if_neg hmem]

/-! ## Words -/

lemma word_of_word {text rest : List Char} (htext : c :: cs = text ++ rest)
    (h : Word ops delimiter text rest.head?) :
    (ofCatalog ops delimiter).word start c cs =
      .ok ⟨TokenKind.ofWord (String.ofList text), [], rest⟩ := by
  obtain ⟨c', more, rfl⟩ := List.exists_cons_of_ne_nil h.ne_nil
  rw [List.cons_append, List.cons.injEq] at htext
  obtain ⟨rfl, rfl⟩ := htext
  have hfirst := isWordChar_ofCatalog.2 (h.wordChar c List.mem_cons_self)
  have hmore : ∀ d ∈ more, (ofCatalog ops delimiter).isWordChar d = true :=
    fun d hd => isWordChar_ofCatalog.2 (h.wordChar d (List.mem_cons_of_mem c hd))
  have hstop : ∀ d ∈ rest.head?, (ofCatalog ops delimiter).isWordChar d = false := by
    intro d hd
    rw [← Bool.not_eq_true, isWordChar_ofCatalog]
    exact h.stops d hd
  rw [word, if_pos hfirst, takeWhile_append_eq hmore hstop, dropWhile_append_eq hmore hstop]

/-- A word is read exactly if it is the longest one. -/
lemma word_eq_ok_iff {l : Lexeme} :
    (ofCatalog ops delimiter).word start c cs = .ok l ↔
      ∃ text rest, c :: cs = text ++ rest ∧ Word ops delimiter text rest.head? ∧
        l = ⟨TokenKind.ofWord (String.ofList text), [], rest⟩ := by
  constructor
  · intro h
    unfold word at h
    split at h
    · rename_i hc
      cases h
      refine ⟨_, _, by rw [List.cons_append, List.takeWhile_append_dropWhile], ⟨?_, ?_, ?_⟩, rfl⟩
      · exact List.cons_ne_nil _ _
      · intro d hd
        rcases List.mem_cons.1 hd with rfl | hd
        · exact isWordChar_ofCatalog.1 hc
        · exact isWordChar_ofCatalog.1 (List.mem_takeWhile_imp hd)
      · intro d hd hword
        have hstop := eq_false_of_head?_dropWhile cs d hd
        exact absurd (isWordChar_ofCatalog.2 hword) (Bool.eq_false_iff.1 hstop)
    · cases h
  · rintro ⟨text, rest, htext, hword, rfl⟩
    exact word_of_word htext hword

/-- A word fails exactly if it cannot even begin. -/
lemma word_eq_error_iff {e : LexError} :
    (ofCatalog ops delimiter).word start c cs = .error e ↔
      ¬ WordChar ops delimiter c ∧ e = .unexpectedCharacter start c := by
  rw [← isWordChar_ofCatalog, word]
  split
  · rename_i hc
    simp [hc]
  · rename_i hc
    simp [hc, eq_comm]

/-! ## All lexemes -/

/-- A parenthesis is read in front of anything. -/
lemma lexeme_of_paren (side : Paren) :
    (ofCatalog ops delimiter).lexeme start side.char cs = .ok ⟨.paren side, [], cs⟩ := by
  cases side <;> rfl

lemma lexeme_of_delimiter (hl : c ≠ '(') (hr : c ≠ ')') (hd : delimiter = some c) :
    (ofCatalog ops delimiter).lexeme start c cs = logicString c start cs := by
  rw [lexeme, if_neg hl, if_neg hr, if_pos (isDelimiter_ofCatalog.2 hd)]

lemma lexeme_of_reserved (h : PlainChar delimiter c) (hc : ∃ op ∈ ops, c ∈ op.toList) :
    (ofCatalog ops delimiter).lexeme start c cs =
      (ofCatalog ops delimiter).operator start c cs := by
  have hd : ¬ (ofCatalog ops delimiter).isDelimiter c = true :=
    mt isDelimiter_ofCatalog.1 h.ne_delimiter
  rw [lexeme, if_neg h.ne_left, if_neg h.ne_right, if_neg hd,
    if_pos (isReserved_ofCatalog_iff.2 hc)]

lemma lexeme_of_plain (h : PlainChar delimiter c) (hc : ∀ op ∈ ops, c ∉ op.toList) :
    (ofCatalog ops delimiter).lexeme start c cs = (ofCatalog ops delimiter).word start c cs := by
  have hd : ¬ (ofCatalog ops delimiter).isDelimiter c = true :=
    mt isDelimiter_ofCatalog.1 h.ne_delimiter
  have hres : ¬ (ofCatalog ops delimiter).isReserved c = true := by
    rw [isReserved_ofCatalog_iff]
    rintro ⟨op, hop, hmem⟩
    exact hc op hop hmem
  rw [lexeme, if_neg h.ne_left, if_neg h.ne_right, if_neg hd, if_neg hres]

/-- What a character begins: a parenthesis, a logic string, an operator or a word, in this order
of precedence. -/
lemma char_cases (ops : List String) (delimiter : Option Char) (hc : Text.isBlank c = false) :
    (∃ side : Paren, c = side.char) ∨ (c ≠ '(' ∧ c ≠ ')' ∧ delimiter = some c) ∨
      (PlainChar delimiter c ∧ ∃ op ∈ ops, c ∈ op.toList) ∨
      (PlainChar delimiter c ∧ ∀ op ∈ ops, c ∉ op.toList) := by
  by_cases hl : c = '('
  · exact Or.inl ⟨.left, hl⟩
  by_cases hr : c = ')'
  · exact Or.inl ⟨.right, hr⟩
  by_cases hd : delimiter = some c
  · exact Or.inr (Or.inl ⟨hl, hr, hd⟩)
  have hplain : PlainChar delimiter c := ⟨hc, hl, hr, hd⟩
  by_cases hres : ∃ op ∈ ops, c ∈ op.toList
  · exact Or.inr (Or.inr (Or.inl ⟨hplain, hres⟩))
  · simp only [not_exists, not_and] at hres
    exact Or.inr (Or.inr (Or.inr ⟨hplain, hres⟩))

/-- A lexeme that is read fits in front of what follows. -/
lemma fits_of_lexeme {l : Lexeme} (hc : Text.isBlank c = false)
    (h : (ofCatalog ops delimiter).lexeme start c cs = .ok l) :
    l.fence = l.kind.fence delimiter ∧ l.kind.Fits ops delimiter l.rest.head? := by
  rcases char_cases ops delimiter hc with
    ⟨side, rfl⟩ | ⟨hl, hr, hd⟩ | ⟨hplain, hres⟩ | ⟨hplain, hres⟩
  · rw [lexeme_of_paren] at h
    cases h
    exact ⟨rfl, trivial⟩
  · rw [lexeme_of_delimiter hl hr hd, logicString_eq_ok_iff] at h
    obtain ⟨body, rest, hbody, rfl, rfl⟩ := h
    exact ⟨by rw [hd]; rfl, c, hd, hl, hr, hc, by rwa [String.toList_ofList]⟩
  · rw [lexeme_of_reserved hplain hres, operator_eq_ok_iff] at h
    obtain ⟨text, rest, htext, hne, hmunch, hmem, rfl⟩ := h
    obtain ⟨c', more, rfl⟩ := List.exists_cons_of_ne_nil hne
    obtain ⟨rfl, rfl⟩ := List.cons.inj htext
    exact ⟨rfl, hmem, ⟨c, more, String.toList_ofList, hplain⟩,
      by simpa only [String.toList_ofList] using hmunch.stops⟩
  · rw [lexeme_of_plain hplain hres, word_eq_ok_iff] at h
    obtain ⟨text, rest, htext, hword, rfl⟩ := h
    refine ⟨?_, TokenKind.fits_ofWord (by rwa [String.toList_ofList])⟩
    rw [TokenKind.ofWord]
    split <;> rfl

lemma lexeme_of_word {text : String} {rest : List Char} {k : TokenKind}
    (htext : c :: cs = text.toList ++ rest) (h : Word ops delimiter text.toList rest.head?)
    (hk : TokenKind.ofWord text = k) :
    (ofCatalog ops delimiter).lexeme start c cs = .ok ⟨k, [], rest⟩ := by
  obtain ⟨c', more, hcons⟩ := List.exists_cons_of_ne_nil h.ne_nil
  have hfirst := h.wordChar c' (by rw [hcons]; exact List.mem_cons_self)
  rw [hcons] at htext
  obtain ⟨rfl, rfl⟩ := List.cons.inj htext
  rw [lexeme_of_plain hfirst.toPlainChar hfirst.not_reserved, word_of_word htext (hcons ▸ h),
    ← hcons, String.ofList_toList, hk]

/-- A lexeme that fits in front of what follows is read. -/
lemma lexeme_of_fits {k : TokenKind} {rest : List Char}
    (htext : k.fence delimiter ++ k.content.toList ++ k.fence delimiter ++ rest = c :: cs)
    (h : k.Fits ops delimiter rest.head?) :
    (ofCatalog ops delimiter).lexeme start c cs = .ok ⟨k, k.fence delimiter, rest⟩ := by
  cases k with
  | name text =>
      simp only [TokenKind.fence, TokenKind.content, List.nil_append, List.append_nil] at htext
      exact lexeme_of_word htext.symm h.1 (TokenKind.ofWord_eq_name_iff.2 h.2)
  | number value =>
      simp only [TokenKind.fence, TokenKind.content, List.nil_append, List.append_nil] at htext
      exact lexeme_of_word htext.symm h (TokenKind.ofWord_eq_number_iff.2 rfl)
  | operator symbol =>
      obtain ⟨hmem, ⟨c', more, hsymbol, hplain⟩, hstops⟩ := h
      simp only [TokenKind.fence, TokenKind.content, List.nil_append, List.append_nil] at htext
      have hne : symbol.toList ≠ [] := by
        rw [hsymbol]
        exact List.cons_ne_nil _ _
      have hmunch : Munch ops symbol.toList rest.head? :=
        ⟨Or.inr ⟨symbol, hmem, List.prefix_refl _⟩, hstops⟩
      have hc : c' = c := by
        rw [hsymbol] at htext
        exact (List.cons.inj htext).1
      subst hc
      rw [lexeme_of_reserved hplain ⟨symbol, hmem, by rw [hsymbol]; exact List.mem_cons_self⟩,
        operator_of_munch htext.symm hne hmunch, String.ofList_toList, if_pos hmem]
      rfl
  | paren side =>
      simp only [TokenKind.fence, TokenKind.content, List.nil_append, List.append_nil,
        String.toList_singleton, List.singleton_append, List.cons.injEq] at htext
      obtain ⟨rfl, rfl⟩ := htext
      exact lexeme_of_paren side
  | logic body =>
      obtain ⟨d, rfl, hl, hr, -, hbody⟩ := h
      simp only [TokenKind.fence, TokenKind.content, Option.toList_some, List.cons_append,
        List.append_assoc, List.cons.injEq] at htext
      obtain ⟨rfl, rfl⟩ := htext
      rw [lexeme_of_delimiter hl hr rfl, List.nil_append, List.nil_append,
        logicString_of_mem hbody, String.ofList_toList]
      rfl

/-- **The lexical rules are what the reader obeys.**  A lexeme is taken off a text exactly when it
is the beginning of the text and fits what follows it. -/
theorem lexeme_eq_ok_iff {l : Lexeme} (hc : Text.isBlank c = false) :
    (ofCatalog ops delimiter).lexeme start c cs = .ok l ↔
      l.text ++ l.rest = c :: cs ∧ l.fence = l.kind.fence delimiter ∧
        l.kind.Fits ops delimiter l.rest.head? := by
  constructor
  · intro h
    exact ⟨lexeme_text h, fits_of_lexeme hc h⟩
  · rintro ⟨htext, hfence, hfits⟩
    obtain ⟨k, fence, rest⟩ := l
    obtain rfl : fence = k.fence delimiter := hfence
    exact lexeme_of_fits htext hfits

/-- There is a lexeme, or the first character begins a fault. -/
theorem lexeme_eq_error_iff {e : LexError} (hc : Text.isBlank c = false) :
    (ofCatalog ops delimiter).lexeme start c cs = .error e ↔
      LexFault ops delimiter start (c :: cs) e := by
  constructor
  · intro h
    rcases char_cases ops delimiter hc with
      ⟨side, rfl⟩ | ⟨hl, hr, hd⟩ | ⟨hplain, hres⟩ | ⟨hplain, hres⟩
    · rw [lexeme_of_paren] at h
      cases h
    · rw [lexeme_of_delimiter hl hr hd, logicString_eq_error_iff] at h
      obtain ⟨hcs, rfl⟩ := h
      exact .unterminated hl hr hd hcs
    · rw [lexeme_of_reserved hplain hres, operator_eq_error_iff] at h
      obtain ⟨text, rest, htext, hne, hmunch, hmem, rfl⟩ := h
      obtain ⟨c', more, rfl⟩ := List.exists_cons_of_ne_nil hne
      obtain ⟨rfl, rfl⟩ := List.cons.inj htext
      exact .misspelt hplain hres hmunch hmem
    · rw [lexeme_of_plain hplain hres, word_eq_error_iff] at h
      obtain ⟨hword, rfl⟩ := h
      by_cases hback : c = '`'
      · subst hback
        exact .backtick hplain hres
      · exact absurd ⟨hplain, hback, hres⟩ hword
  · intro h
    cases h with
    | unterminated hl hr hd hcs =>
        rw [lexeme_of_delimiter hl hr hd, logicString_of_notMem hcs]
    | misspelt hplain hres hmunch hmem =>
        rw [lexeme_of_reserved hplain hres, operator_eq_error_iff]
        exact ⟨_, _, rfl, List.cons_ne_nil _ _, hmunch, hmem, rfl⟩
    | backtick hplain hres =>
        rw [lexeme_of_plain hplain hres, word_eq_error_iff]
        exact ⟨fun hword => hword.ne_backtick rfl, rfl⟩

end Language

end EffectLang
