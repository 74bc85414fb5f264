import EffectLang.Language.Basic
import EffectLang.Language.LexError
import EffectLang.Token.List

/-!
# Cutting a text into tokens

A token is what stands between two stretches of white space, or touches its neighbour.  Its first
character says what it is: a parenthesis, the delimiter of a logic string, the beginning of an
operator, or else a word.  White space goes to the token that it follows, at the beginning of the
text to the first token, and in a text without tokens to the list.

`lexeme_text` is the reason why no character is lost: the text of a lexeme, with its delimiters,
and the text after it are the text that it was read from.
-/

namespace EffectLang

/-- A token without a place: its kind, what stands on either side of its content, and the text
that follows. -/
structure Lexeme where
  kind : TokenKind
  /-- The delimiter of a logic string; nothing for other tokens. -/
  fence : List Char
  rest : List Char

namespace Lexeme

/-- A lexeme as it stands in the text, with its delimiters. -/
def text (l : Lexeme) : List Char := l.fence ++ l.kind.content.toList ++ l.fence

/-- The token at `offset`, between the given white space.  Its delimiters count as the text around
its content. -/
def token (l : Lexeme) (offset : Offset) (before after : List Char) : Token :=
  let start := offset.skip (before.length + l.fence.length)
  ⟨l.kind, ⟨start, start.skip l.kind.content.length⟩, String.ofList (before ++ l.fence),
    String.ofList (l.fence ++ after)⟩

end Lexeme

namespace Language

/-- The logic string whose delimiter is passed already. -/
def logicString (delimiter : Char) (start : Offset) (cs : List Char) : Except LexError Lexeme :=
  match cs.dropWhile (· != delimiter) with
  | [] => .error (.unterminatedString start delimiter)
  | _ :: rest =>
    .ok ⟨.logic (String.ofList (cs.takeWhile (· != delimiter))), [delimiter], rest⟩

/-- The operator that begins with `c`.  The first character is taken in any case, and then as many
as some operator goes on with; what was taken has to be an operator, though a part of it may be
one. -/
def operator (L : Language) (start : Offset) (c : Char) (cs : List Char) : Except LexError Lexeme :=
  let (more, node) := (L.table.trie.advance c).extend cs
  let text := c :: more
  if node.value.isSome then
    .ok ⟨.operator (String.ofList text), [], cs.drop more.length⟩
  else
    .error (.invalidOperator ⟨start, start.skip text.length⟩ (String.ofList text))

/-- The longest name or number at the beginning of `c :: cs`. -/
def word (L : Language) (start : Offset) (c : Char) (cs : List Char) : Except LexError Lexeme :=
  if L.isWordChar c then
    .ok ⟨TokenKind.ofWord (String.ofList (c :: cs.takeWhile L.isWordChar)), [],
      cs.dropWhile L.isWordChar⟩
  else
    .error (.unexpectedCharacter start c)

/-- The lexeme at `start` that begins with `c`. -/
def lexeme (L : Language) (start : Offset) (c : Char) (cs : List Char) : Except LexError Lexeme :=
  if c = '(' then .ok ⟨.paren .left, [], cs⟩
  else if c = ')' then .ok ⟨.paren .right, [], cs⟩
  else if L.isDelimiter c then logicString c start cs
  else if L.isReserved c then L.operator start c cs
  else L.word start c cs

/-- A logic string takes nothing but its delimiters and its body. -/
theorem logicString_text {d : Char} {start : Offset} {cs : List Char} {l : Lexeme}
    (h : logicString d start cs = .ok l) : l.text ++ l.rest = d :: cs := by
  unfold logicString at h
  split at h
  · cases h
  · rename_i e rest hd
    cases h
    have he : e = d := by
      have := List.head?_dropWhile_not (· != d) cs
      simpa [hd] using this
    subst he
    have := List.takeWhile_append_dropWhile (p := (· != e)) (l := cs)
    rw [hd] at this
    simpa [Lexeme.text, TokenKind.content] using this

/-- An operator takes nothing but its own characters. -/
theorem operator_text {L : Language} {start : Offset} {c : Char} {cs : List Char} {l : Lexeme}
    (h : L.operator start c cs = .ok l) : l.text ++ l.rest = c :: cs := by
  simp only [operator] at h
  split at h
  · cases h
    obtain ⟨t, ht⟩ := Trie.extend_fst_isPrefix (L.table.trie.advance c) cs
    simp only [Lexeme.text, TokenKind.content, String.toList_ofList]
    conv => rhs; rw [← ht]
    conv => lhs; rhs; rhs; rw [← ht]
    simp
  · cases h

/-- A word takes nothing but its own characters. -/
theorem word_text {L : Language} {start : Offset} {c : Char} {cs : List Char} {l : Lexeme}
    (h : L.word start c cs = .ok l) : l.text ++ l.rest = c :: cs := by
  simp only [word] at h
  split at h
  · cases h
    simp [Lexeme.text, TokenKind.content_ofWord, List.takeWhile_append_dropWhile]
  · cases h

/-- No character of the text is lost in reading a lexeme. -/
theorem lexeme_text {L : Language} {start : Offset} {c : Char} {cs : List Char} {l : Lexeme}
    (h : L.lexeme start c cs = .ok l) : l.text ++ l.rest = c :: cs := by
  simp only [lexeme] at h
  split at h
  · rename_i hc
    cases h
    simp [Lexeme.text, TokenKind.content, Paren.char, hc]
  · split at h
    · rename_i hc
      cases h
      simp [Lexeme.text, TokenKind.content, Paren.char, hc]
    · split at h
      · exact logicString_text h
      · split at h
        · exact operator_text h
        · exact word_text h

/-- A lexeme takes at least one character. -/
theorem lexeme_text_ne_nil {L : Language} {start : Offset} {c : Char} {cs : List Char} {l : Lexeme}
    (h : L.lexeme start c cs = .ok l) : l.text ≠ [] := by
  simp only [lexeme] at h
  split at h
  · cases h; simp [Lexeme.text, TokenKind.content]
  · split at h
    · cases h; simp [Lexeme.text, TokenKind.content]
    · split at h
      · unfold logicString at h
        split at h
        · cases h
        · cases h; simp [Lexeme.text]
      · split at h
        · simp only [operator] at h
          split at h
          · cases h; simp [Lexeme.text, TokenKind.content]
          · cases h
        · simp only [word] at h
          split at h
          · cases h; simp [Lexeme.text, TokenKind.content_ofWord]
          · cases h

/-- What follows a lexeme is shorter than what it was read from. -/
theorem length_rest_lt {L : Language} {start : Offset} {c : Char} {cs : List Char} {l : Lexeme}
    (h : L.lexeme start c cs = .ok l) : l.rest.length < (c :: cs).length := by
  have h₁ := congrArg List.length (lexeme_text h)
  have h₂ := List.length_pos_iff.2 (lexeme_text_ne_nil h)
  rw [List.length_append] at h₁
  omega

/-- What a token leaves, white space apart, is shorter than what it was read from. -/
theorem length_dropWhile_rest_lt {L : Language} {start : Offset} {p : Char → Bool} {c : Char}
    {cs rest : List Char} {l : Lexeme} (hc : cs.dropWhile p = c :: rest)
    (hl : L.lexeme start c rest = .ok l) : (l.rest.dropWhile p).length < cs.length := by
  have h₁ := length_rest_lt hl
  have h₂ := (List.dropWhile_sublist p (l := l.rest)).length_le
  have h₃ := (List.dropWhile_sublist p (l := cs)).length_le
  rw [hc] at h₃
  omega

/-- Reads the tokens of `cs`, which begins at `offset`, after those read before, last one first. -/
def scan (L : Language) (offset : Offset) (cs : List Char) (read : List Token) :
    Except LexError TokenList :=
  let before := cs.takeWhile Text.isBlank
  match hc : cs.dropWhile Text.isBlank with
  | [] => .ok ⟨read.reverse, String.ofList before⟩
  | c :: rest =>
    match hl : L.lexeme (offset.skip before.length) c rest with
    | .error e => .error e
    | .ok l =>
      let after := l.rest.takeWhile Text.isBlank
      have := length_dropWhile_rest_lt hc hl
      scan L (offset.skip (before.length + l.text.length + after.length))
        (l.rest.dropWhile Text.isBlank) (l.token offset before after :: read)
termination_by cs.length

/-- Nothing but white space: it belongs to no token. -/
theorem scan_of_blank {L : Language} {offset : Offset} {cs : List Char} {read : List Token}
    (hc : cs.dropWhile Text.isBlank = []) :
    L.scan offset cs read = .ok ⟨read.reverse, String.ofList cs⟩ := by
  have h := List.takeWhile_append_dropWhile (p := Text.isBlank) (l := cs)
  rw [hc, List.append_nil] at h
  rw [scan]
  split
  · rw [h]
  · rename_i c rest hc'
    rw [hc] at hc'
    cases hc'

/-- A fault behind white space ends the reading. -/
theorem scan_of_error {L : Language} {offset : Offset} {cs rest : List Char} {read : List Token}
    {c : Char} {e : LexError} (hc : cs.dropWhile Text.isBlank = c :: rest)
    (hl : L.lexeme (offset.skip (cs.takeWhile Text.isBlank).length) c rest = .error e) :
    L.scan offset cs read = .error e := by
  rw [scan]
  split
  · rename_i hc'
    rw [hc] at hc'
    cases hc'
  · rename_i c' rest' hc'
    rw [hc] at hc'
    cases hc'
    split
    · rename_i e' hl'
      rw [hl] at hl'
      cases hl'
      rfl
    · rename_i l hl'
      rw [hl] at hl'
      cases hl'

/-- One token is read and scanning goes on behind the white space that follows it. -/
theorem scan_of_lexeme {L : Language} {offset : Offset} {cs rest : List Char} {read : List Token}
    {c : Char} {l : Lexeme} (hc : cs.dropWhile Text.isBlank = c :: rest)
    (hl : L.lexeme (offset.skip (cs.takeWhile Text.isBlank).length) c rest = .ok l) :
    L.scan offset cs read =
      L.scan
        (offset.skip ((cs.takeWhile Text.isBlank).length + l.text.length +
          (l.rest.takeWhile Text.isBlank).length))
        (l.rest.dropWhile Text.isBlank)
        (l.token offset (cs.takeWhile Text.isBlank) (l.rest.takeWhile Text.isBlank) :: read) := by
  rw [scan]
  split
  · rename_i hc'
    rw [hc] at hc'
    cases hc'
  · rename_i c' rest' hc'
    rw [hc] at hc'
    cases hc'
    split
    · rename_i e hl'
      rw [hl] at hl'
      cases hl'
    · rename_i l' hl'
      rw [hl] at hl'
      cases hl'
      rfl

/-- The tokens of a text, or the first place at which there is none. -/
def tokenize (L : Language) (source : String) : Except LexError TokenList :=
  L.scan 0 source.toList []

end Language

end EffectLang
