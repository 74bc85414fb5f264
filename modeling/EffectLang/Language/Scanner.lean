import EffectLang.Language.Tokenize
import EffectLang.Text.Cursor

/-!
# The scanner, character by character

`Language.scan` says what the tokens of a text are.  The scanner finds them with a cursor, and never
looks further ahead than the next character.

Every token passes through three phases in order: the text in front of its content, the content,
and the text behind.  A character that is passed is put to the part of the token whose phase it is,
and the transitions note where the content starts and stops.  A transition out of order is a fault
of the scanner and not of the text.

**One token.**  What the scanner does with a text ahead is told by what `Language.lexeme` makes of
it (`Scanner.next_eq`).  So every token takes characters, and the scanner comes to an end.
-/

namespace EffectLang

open Text

/-- Which part of a token is being read. -/
inductive Phase where
  | leading
  | content
  | trailing
deriving DecidableEq

/-- The name of a phase in messages. -/
def Phase.label : Phase → String
  | leading => "LeadingTrivia"
  | content => "Content"
  | trailing => "TrailingTrivia"

/-- What was read of a token, and the two ends of its content as far as they are known. -/
structure ScanState where
  phase : Phase
  start : Offset
  stop : Offset
  leading : String
  content : String
  trailing : String

namespace ScanState

/-- Puts a character to the part that is being read. -/
def put (s : ScanState) (c : Char) : ScanState :=
  match s.phase with
  | .leading => { s with leading := s.leading.push c }
  | .content => { s with content := s.content.push c }
  | .trailing => { s with trailing := s.trailing.push c }

/-- Puts one character after another. -/
def putAll (s : ScanState) (cs : List Char) : ScanState := cs.foldl put s

/-- The finished token. -/
def finish (s : ScanState) (kind : TokenKind) : Token :=
  ⟨kind, ⟨s.start, s.stop⟩, s.leading, s.trailing⟩

section Put

variable {start stop : Offset} {leading content trailing : String}

/-- A character at the end of one text may as well be in front of the other. -/
theorem push_append_ofList (s : String) (c : Char) (cs : List Char) :
    s.push c ++ String.ofList cs = s ++ String.ofList (c :: cs) := by
  rw [← String.toList_inj]
  simp

/-- In front of the content, characters go to the leading text. -/
theorem putAll_leading (cs : List Char) :
    (ScanState.mk .leading start stop leading content trailing).putAll cs =
      ⟨.leading, start, stop, leading ++ String.ofList cs, content, trailing⟩ := by
  induction cs generalizing leading with
  | nil => simp [putAll]
  | cons c cs ih => exact ih.trans (by rw [push_append_ofList])

/-- In the content, characters go to the content. -/
theorem putAll_content (cs : List Char) :
    (ScanState.mk .content start stop leading content trailing).putAll cs =
      ⟨.content, start, stop, leading, content ++ String.ofList cs, trailing⟩ := by
  induction cs generalizing content with
  | nil => simp [putAll]
  | cons c cs ih => exact ih.trans (by rw [push_append_ofList])

/-- Behind the content, characters go to the trailing text. -/
theorem putAll_trailing (cs : List Char) :
    (ScanState.mk .trailing start stop leading content trailing).putAll cs =
      ⟨.trailing, start, stop, leading, content, trailing ++ String.ofList cs⟩ := by
  induction cs generalizing trailing with
  | nil => simp [putAll]
  | cons c cs ih => exact ih.trans (by rw [push_append_ofList])

end Put

end ScanState

/-- A transition that was out of order: the phase that was expected, what was found instead, and
where. -/
structure PhaseFault where
  expected : Phase
  state : ScanState
  offset : Offset

/-- What is said of a transition that was out of order. -/
def PhaseFault.message (f : PhaseFault) : String :=
  "tokenizing in bad state: expected " ++ f.expected.label ++ ", was " ++ f.state.phase.label ++
    " at position " ++ Numeral.ofNat f.offset.toNat ++ "; current partial token: " ++
    quoted (f.state.leading ++ f.state.content ++ f.state.trailing)

/-- Why a scanner gives up: the text has a fault, or the scanner has. -/
inductive ScanFailure where
  | lexical (e : LexError)
  | phase (f : PhaseFault)

/-- A token that is being read, and the place where it is read. -/
structure Scanner where
  state : ScanState
  cursor : Cursor

namespace Scanner

/-- A new token begins at the cursor. -/
def start (c : Cursor) : Scanner := ⟨⟨.leading, c.offset, c.offset, "", "", ""⟩, c⟩

/-- Passes a character, if there is one, and gives it. -/
def consume (s : Scanner) : Option Char × Scanner :=
  match s.cursor.bump with
  | (some c, cursor) => (some c, ⟨s.state.put c, cursor⟩)
  | (none, cursor) => (none, ⟨s.state, cursor⟩)

/-- The same token some more characters further on. -/
def past (s : Scanner) (cs : List Char) : Scanner := ⟨s.state.putAll cs, s.cursor.pass cs⟩

/-- To take a character is to pass it. -/
theorem consume_of_ahead {s : Scanner} {c : Char} {rest : List Char}
    (h : s.cursor.ahead = c :: rest) : s.consume = (some c, s.past [c]) := by
  rw [consume, Cursor.bump_of_ahead h]
  rfl

/-- The next character is the first one ahead. -/
theorem exists_ahead_of_current? {s : Scanner} {c : Char} (h : s.cursor.current? = some c) :
    ∃ rest, s.cursor.ahead = c :: rest := by
  rw [Cursor.current?] at h
  cases hahead : s.cursor.ahead with
  | nil => simp [hahead] at h
  | cons d rest =>
    rw [hahead] at h
    cases h
    exact ⟨rest, rfl⟩

/-- Behind what was passed comes the rest. -/
theorem ahead_past {s : Scanner} {cs rest : List Char} (h : s.cursor.ahead = cs ++ rest) :
    (s.past cs).cursor.ahead = rest :=
  Cursor.ahead_pass h

/-- Behind a character that was taken there is less to come. -/
theorem length_ahead_consume_lt {s : Scanner} {c : Char} (h : s.cursor.current? = some c) :
    s.consume.2.cursor.ahead.length < s.cursor.ahead.length := by
  obtain ⟨rest, hahead⟩ := exists_ahead_of_current? h
  have hpast : (s.past [_]).cursor.ahead = rest := ahead_past hahead
  rw [consume_of_ahead hahead, hpast, hahead]
  exact Nat.lt_succ_self _

/-- Passes characters for as long as `p` holds of them. -/
def consumeWhile (p : Char → Bool) (s : Scanner) : Scanner :=
  match _ : s.cursor.current? with
  | none => s
  | some c =>
    if p c then consumeWhile p s.consume.2 else s
termination_by s.cursor.ahead.length
decreasing_by exact length_ahead_consume_lt ‹_›

/-- To take characters one by one, as long as they fit, is to pass the longest run of them. -/
theorem consumeWhile_eq {p : Char → Bool} {s : Scanner} {cs : List Char}
    (h : s.cursor.ahead = cs) : s.consumeWhile p = s.past (cs.takeWhile p) := by
  induction cs generalizing s with
  | nil =>
    rw [consumeWhile]
    split
    · rfl
    · rename_i c hc
      obtain ⟨rest, hrest⟩ := exists_ahead_of_current? hc
      rw [h] at hrest
      cases hrest
  | cons d cs ih =>
    have hd : s.cursor.current? = some d := by rw [Cursor.current?, h]; rfl
    rw [consumeWhile]
    split
    · rename_i hc
      rw [hd] at hc
      cases hc
    · rename_i c hc
      rw [hd] at hc
      cases hc
      rw [consume_of_ahead h, List.takeWhile_cons]
      split
      · exact ih (ahead_past h)
      · rfl

/-- Passes from one part of the token to the next one. -/
def advance (s : Scanner) : Except ScanFailure Scanner :=
  match s.state.phase with
  | .leading => .ok ⟨{ s.state with phase := .content, start := s.cursor.offset }, s.cursor⟩
  | .content => .ok ⟨{ s.state with phase := .trailing, stop := s.cursor.offset }, s.cursor⟩
  | .trailing => .error (.phase ⟨.content, s.state, s.cursor.offset⟩)

/-- Gives up unless the scanner is in this phase. -/
def expect (s : Scanner) (phase : Phase) : Except ScanFailure Unit :=
  if s.state.phase = phase then .ok () else .error (.phase ⟨phase, s.state, s.cursor.offset⟩)

/-! ## The readers -/

/-- Reads a parenthesis. -/
def readParen (side : Paren) (s : Scanner) : Except ScanFailure (TokenKind × Scanner) := do
  let s ← s.advance
  let s ← s.consume.2.advance
  return (.paren side, s)

/-- Reads a logic string.  Its delimiters stand around the content, the first one as the end of the
leading text and the last one as the beginning of the trailing text. -/
def readLogic (delimiter : Char) (s : Scanner) : Except ScanFailure (TokenKind × Scanner) := do
  let opening := s.cursor.offset
  let s ← s.consume.2.advance
  let s := s.consumeWhile (· != delimiter)
  match s.cursor.current? with
  | none => throw (.lexical (.unterminatedString opening delimiter))
  | some _ =>
    let s ← s.advance
    return (.logic s.state.content, s.consume.2)

/-- Passes characters for as long as some operator goes on with them, from a node of the prefix
tree on. -/
def munch (node : Trie) (s : Scanner) : Trie × Scanner :=
  match _ : s.cursor.current? with
  | none => (node, s)
  | some c =>
    if (node.advance c).isAlive then munch (node.advance c) s.consume.2 else (node, s)
termination_by s.cursor.ahead.length
decreasing_by exact length_ahead_consume_lt ‹_›

/-- Reads an operator.  The first character is taken in any case. -/
def readOperator (L : Language) (s : Scanner) : Except ScanFailure (TokenKind × Scanner) := do
  let s ← s.advance
  let start := s.cursor.offset
  let (first, s) := s.consume
  let node := match first with
    | some c => L.table.trie.advance c
    | none => L.table.trie
  let (node, s) := s.munch node
  match node.value with
  | none => throw (.lexical (.invalidOperator ⟨start, s.cursor.offset⟩ s.state.content))
  | some _ =>
    let s ← s.advance
    return (.operator s.state.content, s)

/-- Reads a name or a number. -/
def readWord (L : Language) (first : Char) (s : Scanner) :
    Except ScanFailure (TokenKind × Scanner) := do
  let s ← s.advance
  let start := s.cursor.offset
  let s := s.consumeWhile L.isWordChar
  if s.state.content.isEmpty then
    throw (.lexical (.unexpectedCharacter start first))
  let s ← s.advance
  return (TokenKind.ofWord s.state.content, s)

/-- Reads what begins with `c`, the next character. -/
def read (L : Language) (c : Char) (s : Scanner) : Except ScanFailure (TokenKind × Scanner) :=
  if c = '(' then s.readParen .left
  else if c = ')' then s.readParen .right
  else if L.isDelimiter c then s.readLogic c
  else if L.isReserved c then s.readOperator L
  else s.readWord L c

/-- Reads a token with the white space on both sides of it, or the white space at the end. -/
def next (L : Language) (c : Cursor) : Except ScanFailure (String ⊕ Token × Cursor) := do
  let s := start c
  s.expect .leading
  let s := s.consumeWhile isBlank
  match s.cursor.current? with
  | none => return .inl s.state.leading
  | some first =>
    let (kind, s) ← s.read L first
    s.expect .trailing
    let s := s.consumeWhile isBlank
    return .inr (s.state.finish kind, s.cursor)

/-! ## What the readers do -/

/-- The scanner behind the content of a lexeme and its delimiters, with `leading` in front. -/
def behind (leading : String) (c : Cursor) (l : Lexeme) : Scanner where
  state := ⟨.trailing, c.offset.skip l.fence.length,
    c.offset.skip (l.fence.length + l.kind.content.length), leading ++ String.ofList l.fence,
    l.kind.content, String.ofList l.fence⟩
  cursor := c.pass l.text

section Readers

variable {L : Language} {c : Cursor} {offset offset' : Offset} {leading : String} {first : Char}
  {cs : List Char}

/-- A lexeme without delimiters has its content for its text. -/
theorem behind_of_no_fence (leading : String) (c : Cursor) (k : TokenKind) (rest : List Char) :
    behind leading c ⟨k, [], rest⟩ =
      ⟨⟨.trailing, c.offset, c.offset.skip k.content.length, leading, k.content, ""⟩,
        c.pass k.content.toList⟩ := by
  simp [behind, Lexeme.text, Offset.skip_zero]

/-- What is passed for an operator is the greedy reading from the node on. -/
theorem munch_eq {node : Trie} {s : Scanner} (h : s.cursor.ahead = cs) :
    s.munch node = ((node.extend cs).2, s.past (node.extend cs).1) := by
  induction cs generalizing node s with
  | nil =>
    rw [munch]
    split
    · rfl
    · rename_i c hc
      obtain ⟨rest, hrest⟩ := exists_ahead_of_current? hc
      rw [h] at hrest
      cases hrest
  | cons d cs ih =>
    have hd : s.cursor.current? = some d := by rw [Cursor.current?, h]; rfl
    rw [munch, Trie.extend]
    split
    · rename_i hc
      rw [hd] at hc
      cases hc
    · rename_i c hc
      rw [hd] at hc
      cases hc
      rw [consume_of_ahead h]
      split
      · exact ih (ahead_past h)
      · rfl

/-- A parenthesis is read as its lexeme. -/
theorem readParen_eq (side : Paren) (h : c.ahead = side.char :: cs) :
    readParen side ⟨⟨.leading, offset, offset', leading, "", ""⟩, c⟩ =
      .ok (.paren side, behind leading c ⟨.paren side, [], cs⟩) := by
  simp only [readParen, advance, bind, Except.bind, pure, Except.pure]
  rw [consume_of_ahead h, behind_of_no_fence, TokenKind.content, String.toList_singleton,
    String.length_singleton, Offset.skip_one]
  rfl

/-- In the content of a token, the characters that are passed become content. -/
theorem consumeWhile_content {p : Char → Bool} {start stop : Offset} {content : String}
    (h : c.ahead = cs) :
    (Scanner.mk ⟨.content, start, stop, leading, content, ""⟩ c).consumeWhile p =
      ⟨⟨.content, start, stop, leading, content ++ String.ofList (cs.takeWhile p), ""⟩,
        c.pass (cs.takeWhile p)⟩ := by
  rw [consumeWhile_eq h, past, ScanState.putAll_content]

/-- A logic string is read as its lexeme, or fails as that does. -/
theorem readLogic_eq (h : c.ahead = first :: cs) :
    readLogic first ⟨⟨.leading, offset, offset', leading, "", ""⟩, c⟩ =
      match Language.logicString first c.offset cs with
      | .error e => .error (.lexical e)
      | .ok l => .ok (l.kind, behind leading c l) := by
  have hcs : (c.pass [first]).ahead = cs := Cursor.ahead_pass h
  have hrest : ((c.pass [first]).pass (cs.takeWhile (· != first))).ahead =
      cs.dropWhile (· != first) :=
    Cursor.ahead_pass (hcs.trans List.takeWhile_append_dropWhile.symm)
  have hconsume : (Scanner.mk ⟨.leading, offset, offset', leading, "", ""⟩ c).consume.2 =
      ⟨⟨.leading, offset, offset', leading.push first, "", ""⟩, c.pass [first]⟩ := by
    rw [consume_of_ahead h]
    rfl
  simp only [readLogic, advance, bind, Except.bind, hconsume, consumeWhile_content hcs,
    Cursor.current?, hrest, Language.logicString]
  cases hdrop : cs.dropWhile (· != first) with
  | nil => rfl
  | cons d rest =>
    have hd : d = first := by
      have := List.head?_dropWhile_not (· != first) cs
      simpa [hdrop] using this
    subst hd
    rw [hdrop] at hrest
    simp only [List.head?_cons, pure, Except.pure]
    rw [consume_of_ahead hrest]
    simp [past, ScanState.putAll, ScanState.put, behind, Lexeme.text, TokenKind.content,
      Cursor.pass, Cursor.pass_append, Cursor.offset_pass, Offset.skip_skip, ← Offset.skip_one]

/-- An operator is read as its lexeme, or fails as that does. -/
theorem readOperator_eq (h : c.ahead = first :: cs) :
    readOperator L ⟨⟨.leading, offset, offset', leading, "", ""⟩, c⟩ =
      match L.operator c.offset first cs with
      | .error e => .error (.lexical e)
      | .ok l => .ok (l.kind, behind leading c l) := by
  have hcs : (c.pass [first]).ahead = cs := Cursor.ahead_pass h
  have hconsume : (Scanner.mk ⟨.content, c.offset, offset', leading, "", ""⟩ c).consume =
      (some first, ⟨⟨.content, c.offset, offset', leading, "".push first, ""⟩, c.pass [first]⟩) := by
    rw [consume_of_ahead h]
    rfl
  simp only [readOperator, advance, bind, Except.bind, hconsume]
  rw [munch_eq hcs, Language.operator]
  generalize hextend : (L.table.trie.advance first).extend cs = taken
  obtain ⟨more, node⟩ := taken
  have hpass : (c.pass [first]).pass more = c.pass (first :: more) := rfl
  simp only [past, ScanState.putAll_content, ScanState.push_append_ofList, String.empty_append,
    hpass, Cursor.offset_pass]
  cases node.value with
  | none => rfl
  | some value =>
    simp only [Option.isSome_some, if_true, behind_of_no_fence, TokenKind.content,
      String.length_ofList, String.toList_ofList]
    rfl

/-- A word is read as its lexeme, or fails as that does. -/
theorem readWord_eq (h : c.ahead = first :: cs) :
    readWord L first ⟨⟨.leading, offset, offset', leading, "", ""⟩, c⟩ =
      match L.word c.offset first cs with
      | .error e => .error (.lexical e)
      | .ok l => .ok (l.kind, behind leading c l) := by
  simp only [readWord, advance, bind, Except.bind, consumeWhile_content h, Language.word,
    List.takeWhile_cons, String.empty_append]
  split
  · have hne : (String.ofList (first :: cs.takeWhile L.isWordChar)).isEmpty = false := by
      simp
    simp only [hne, behind_of_no_fence, TokenKind.content_ofWord, String.length_ofList,
      String.toList_ofList, Cursor.offset_pass]
    rfl
  · rfl

/-- What begins with a character is read as its lexeme, or fails as that does. -/
theorem read_eq (h : c.ahead = first :: cs) :
    read L first ⟨⟨.leading, offset, offset', leading, "", ""⟩, c⟩ =
      match L.lexeme c.offset first cs with
      | .error e => .error (.lexical e)
      | .ok l => .ok (l.kind, behind leading c l) := by
  rw [read, Language.lexeme]
  split
  · rename_i hfirst
    subst hfirst
    exact readParen_eq .left h
  · split
    · rename_i hfirst
      subst hfirst
      exact readParen_eq .right h
    · split
      · exact readLogic_eq h
      · split
        · exact readOperator_eq h
        · exact readWord_eq h

/-- **One token, from what is ahead.**  Behind white space the scanner reads what the lexeme there
is, and the white space behind it. -/
theorem next_eq (L : Language) (c : Cursor) :
    next L c =
      match c.ahead.dropWhile isBlank with
      | [] => .ok (.inl (String.ofList c.ahead))
      | first :: rest =>
        match L.lexeme (c.offset.skip (c.ahead.takeWhile isBlank).length) first rest with
        | .error e => .error (.lexical e)
        | .ok l =>
          .ok (.inr (l.token c.offset (c.ahead.takeWhile isBlank) (l.rest.takeWhile isBlank),
            c.pass (c.ahead.takeWhile isBlank ++ (l.text ++ l.rest.takeWhile isBlank)))) := by
  have hsplit := List.takeWhile_append_dropWhile (p := isBlank) (l := c.ahead)
  have hrest : (c.pass (c.ahead.takeWhile isBlank)).ahead = c.ahead.dropWhile isBlank :=
    Cursor.ahead_pass hsplit.symm
  simp only [next, start, expect, if_true, bind, Except.bind, consumeWhile_eq rfl, past,
    ScanState.putAll_leading, String.empty_append, Cursor.current?, hrest]
  cases hdrop : c.ahead.dropWhile isBlank with
  | nil =>
    rw [hdrop, List.append_nil] at hsplit
    rw [hsplit]
    rfl
  | cons first rest =>
    rw [hdrop] at hrest
    simp only [List.head?_cons, read_eq hrest, Cursor.offset_pass]
    cases hl : L.lexeme (c.offset.skip (c.ahead.takeWhile isBlank).length) first rest with
    | error e => rfl
    | ok l =>
      have hbehind : ((c.pass (c.ahead.takeWhile isBlank)).pass l.text).ahead = l.rest :=
        Cursor.ahead_pass (hrest.trans (Language.lexeme_text hl).symm)
      simp only [behind, if_true, ScanState.putAll_trailing, hbehind]
      simp [ScanState.finish, Lexeme.token, Cursor.offset_pass, Cursor.pass_append,
        Offset.skip_skip, Nat.add_assoc, pure, Except.pure]

/-- Behind a lexeme and the white space around it lies the rest. -/
theorem ahead_behind_lexeme {rest : List Char} {l : Lexeme} {start : Offset}
    (hdrop : c.ahead.dropWhile isBlank = first :: rest)
    (hl : L.lexeme start first rest = .ok l) :
    (c.pass (c.ahead.takeWhile isBlank ++ (l.text ++ l.rest.takeWhile isBlank))).ahead =
      l.rest.dropWhile isBlank := by
  refine Cursor.ahead_pass ?_
  rw [List.append_assoc, List.append_assoc, List.takeWhile_append_dropWhile,
    Language.lexeme_text hl, ← hdrop, List.takeWhile_append_dropWhile]

/-- Every token takes characters. -/
theorem length_ahead_next_lt {c' : Cursor} {t : Token} (h : next L c = .ok (.inr (t, c'))) :
    c'.ahead.length < c.ahead.length := by
  rw [next_eq] at h
  split at h
  · cases h
  · rename_i first rest hdrop
    split at h
    · cases h
    · rename_i l hl
      cases h
      rw [ahead_behind_lexeme hdrop hl]
      exact Language.length_dropWhile_rest_lt hdrop hl

end Readers

/-! ## All tokens -/

/-- Reads one token after another, up to the end of the text. -/
def run (L : Language) (c : Cursor) (tokens : TokenList) : Except ScanFailure TokenList :=
  if c.atEnd then .ok tokens
  else
    match h : next L c with
    | .error e => .error e
    | .ok (.inl trailing) => .ok (tokens.withTrailing trailing)
    | .ok (.inr (t, c')) =>
      have := length_ahead_next_lt h
      run L c' (tokens.push t)
termination_by c.ahead.length

/-- The tokens of a text. -/
def tokenize (L : Language) (source : String) : Except ScanFailure TokenList :=
  run L (.ofString source) .empty

end Scanner

end EffectLang
