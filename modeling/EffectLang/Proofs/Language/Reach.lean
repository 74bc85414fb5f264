import EffectLang.Proofs.Language.Lexeme
import EffectLang.Proofs.Language.Scan

/-!
# Reading a part of a text

`Reaches L offset cs ts offset' cs'` says that the scanner, begun on `cs`, reads the tokens `ts` and
stands in front of `cs'`.  A whole scan reaches the end or a character that begins no lexeme
(`reaches_of_error`).

**What is read does not depend on what is ahead.**  A lexeme knows one character behind it.  So
the text that is still ahead can be exchanged, as long as it is empty or begins with the same
character (`Reaches.exchange`), and the same tokens are read in front of it.
-/

namespace EffectLang

/-- White space alone. -/
def Blank (cs : List Char) : Prop := ∀ c ∈ cs, Text.isBlank c = true

lemma blank_nil : Blank [] := fun _ hc => nomatch hc

lemma blank_singleton {c : Char} (h : Text.isBlank c = true) : Blank [c] := by
  intro d hd
  rwa [List.mem_singleton.1 hd]

lemma blank_takeWhile (cs : List Char) : Blank (cs.takeWhile Text.isBlank) :=
  fun _ hc => List.mem_takeWhile_imp hc

lemma not_blank_of_dropWhile {cs rest : List Char} {c : Char}
    (h : cs.dropWhile Text.isBlank = c :: rest) : Text.isBlank c = false :=
  eq_false_of_head?_dropWhile cs c (by rw [h]; rfl)

/-- Behind white space there is no more of it. -/
lemma takeWhile_dropWhile_isBlank (cs : List Char) :
    (cs.dropWhile Text.isBlank).takeWhile Text.isBlank = [] := by
  have h : ([] ++ cs.dropWhile Text.isBlank).takeWhile Text.isBlank = [] :=
    takeWhile_append_eq (by simp) (eq_false_of_head?_dropWhile cs)
  exact h

/-- A token begins with a character that is not white space. -/
lemma TokenKind.Fits.exists_cons {ops : List String} {delimiter next : Option Char}
    {k : TokenKind} (h : k.Fits ops delimiter next) :
    ∃ c cs, k.fence delimiter ++ k.content.toList = c :: cs ∧ Text.isBlank c = false := by
  cases k with
  | name text =>
      obtain ⟨c, cs, hcs⟩ := List.exists_cons_of_ne_nil h.1.ne_nil
      exact ⟨c, cs, hcs, (h.1.wordChar c (by rw [hcs]; exact List.mem_cons_self)).not_blank⟩
  | number value =>
      obtain ⟨c, cs, hcs⟩ := List.exists_cons_of_ne_nil h.ne_nil
      exact ⟨c, cs, hcs, (h.wordChar c (by rw [hcs]; exact List.mem_cons_self)).not_blank⟩
  | operator symbol =>
      obtain ⟨-, ⟨c, cs, hcs, hplain⟩, -⟩ := h
      exact ⟨c, cs, hcs, hplain.not_blank⟩
  | paren side =>
      refine ⟨side.char, [], by simp [fence, content], ?_⟩
      cases side <;> decide
  | logic body =>
      obtain ⟨d, rfl, -, -, hd, -⟩ := h
      exact ⟨d, body.toList, rfl, hd⟩

namespace Language

/-- The text of a token stands between the white space that belongs to it. -/
lemma text_token_cons (l : Lexeme) (offset : Offset) (before after : List Char) (ts : List Token) :
    (TokenList.ofList (l.token offset before after :: ts)).text.toList =
      before ++ (l.text ++ (after ++ (TokenList.ofList ts).text.toList)) := by
  rw [TokenList.ofList, TokenList.text_cons, fullText_token]
  simp [TokenList.ofList]

/-- Reading `ts` leads from one place in a text to another. -/
inductive Reaches (L : Language) :
    Offset → List Char → List Token → Offset → List Char → Prop
  | refl (offset : Offset) (cs : List Char) : Reaches L offset cs [] offset cs
  | lexeme {offset offset' : Offset} {cs cs' rest : List Char} {c : Char} {l : Lexeme}
      {ts : List Token} (hc : cs.dropWhile Text.isBlank = c :: rest)
      (hl : L.lexeme (offset.skip (cs.takeWhile Text.isBlank).length) c rest = .ok l)
      (hs : Reaches L
        (offset.skip ((cs.takeWhile Text.isBlank).length + l.text.length +
          (l.rest.takeWhile Text.isBlank).length))
        (l.rest.dropWhile Text.isBlank) ts offset' cs') :
      Reaches L offset cs
        (l.token offset (cs.takeWhile Text.isBlank) (l.rest.takeWhile Text.isBlank) :: ts) offset'
        cs'

namespace Reaches

variable {L : Language} {offset offset' : Offset} {cs cs' : List Char} {ts : List Token}

/-- The scanner goes on from the place that is reached. -/
lemma scan_eq (h : L.Reaches offset cs ts offset' cs') :
    ∀ read, L.scan offset cs read = L.scan offset' cs' (ts.reverse ++ read) := by
  induction h with
  | refl offset cs =>
      intro read
      rfl
  | lexeme hc hl _ ih =>
      intro read
      rw [scan_of_lexeme hc hl, ih, List.reverse_cons, List.append_assoc, List.singleton_append]

/-- A scan from the place that is reached completes a scan of the whole. -/
lemma scans {list : TokenList} (h : L.Reaches offset cs ts offset' cs')
    (hs : L.Scans offset' cs' list) :
    L.Scans offset cs ⟨ts ++ list.tokens, list.trailing⟩ := by
  induction h with
  | refl offset cs => exact hs
  | lexeme hc hl _ ih => exact .lexeme hc hl (ih hs)

/-- No character is lost on the way, and the offset counts them. -/
theorem text_eq (h : L.Reaches offset cs ts offset' cs') :
    cs = (TokenList.ofList ts).text.toList ++ cs' ∧
      offset' = offset.skip (TokenList.ofList ts).text.length := by
  induction h with
  | refl offset cs => simp [TokenList.ofList, TokenList.text, Offset.skip_zero]
  | @lexeme offset offset' cs cs' rest c l ts hc hl _ ih =>
      obtain ⟨hcs, hoffset⟩ := ih
      constructor
      · rw [text_token_cons]
        simp only [List.append_assoc]
        rw [← hcs, List.takeWhile_append_dropWhile, lexeme_text hl, ← hc,
          List.takeWhile_append_dropWhile]
      · rw [hoffset, Offset.skip_skip, ← String.length_toList, ← String.length_toList,
          text_token_cons]
        simp only [List.length_append, Nat.add_assoc]

end Reaches

/-- A failing scan reaches a character that no lexeme begins with. -/
theorem reaches_of_error {L : Language} {offset : Offset} {cs : List Char} {read : List Token}
    {e : LexError} (h : L.scan offset cs read = .error e) :
    ∃ ts offset' cs' c rest, L.Reaches offset cs ts offset' cs' ∧
      cs'.dropWhile Text.isBlank = c :: rest ∧
      L.lexeme (offset'.skip (cs'.takeWhile Text.isBlank).length) c rest = .error e := by
  induction offset, cs using scan_induction L generalizing read with
  | blank offset cs hc =>
      rw [scan_of_blank hc] at h
      cases h
  | fault offset cs c rest e' hc hl =>
      rw [scan_of_error hc hl] at h
      cases h
      exact ⟨[], offset, cs, c, rest, .refl _ _, hc, hl⟩
  | lexeme offset cs c rest l hc hl ih =>
      rw [scan_of_lexeme hc hl] at h
      obtain ⟨ts, offset', cs', c', rest', hs, hc', hl'⟩ := ih h
      exact ⟨_, offset', cs', c', rest', .lexeme hc hl hs, hc', hl'⟩

/-- An error in reading a lexeme points at characters from the beginning of the lexeme on. -/
lemma span_of_lexeme_error {L : Language} {start : Offset} {c : Char} {cs : List Char}
    {e : LexError} (h : L.lexeme start c cs = .error e) :
    ∃ n, n ≤ (c :: cs).length ∧ e.span = ⟨start, start.skip n⟩ := by
  have hsingle : 1 ≤ (c :: cs).length := Nat.succ_le_succ (Nat.zero_le _)
  rw [lexeme] at h
  split_ifs at h
  · rw [logicString] at h
    split at h
    · cases h
      exact ⟨1, hsingle, rfl⟩
    · cases h
  · simp only [operator] at h
    split_ifs at h
    cases h
    have hmore := (Trie.extend_fst_isPrefix (L.table.trie.advance c) cs).length_le
    exact ⟨_, Nat.succ_le_succ hmore, rfl⟩
  · rw [word] at h
    split_ifs at h
    cases h
    exact ⟨1, hsingle, rfl⟩

/-- An error points at characters of the text. -/
theorem span_of_tokenize_error {L : Language} {source : String} {e : LexError}
    (h : L.tokenize source = .error e) :
    ∃ k n, k + n ≤ source.length ∧ e.span = ⟨.after k, .after (k + n)⟩ := by
  obtain ⟨ts, offset, cs, c, rest, hreaches, hc, hl⟩ := reaches_of_error h
  obtain ⟨hsource, hoffset⟩ := hreaches.text_eq
  obtain ⟨n, hn, hspan⟩ := span_of_lexeme_error hl
  refine ⟨(TokenList.ofList ts).text.length + (cs.takeWhile Text.isBlank).length, n, ?_, ?_⟩
  · have hcs :=
      congrArg List.length (List.takeWhile_append_dropWhile (p := Text.isBlank) (l := cs))
    have hlength := congrArg List.length hsource
    rw [hc, List.length_append] at hcs
    rw [String.length_toList, List.length_append, String.length_toList] at hlength
    omega
  · rw [hspan, hoffset, ← Offset.after_zero, Offset.skip_after, Offset.skip_after,
      Offset.skip_after, Nat.zero_add]

/-! ## Exchanging what is ahead -/

section Exchange

variable {ops : List String} {delimiter : Option Char} {offset offset' : Offset} {ts : List Token}

/-- A token that fits what follows is read off the text that it is written to. -/
lemma Reaches.of_fits {k : TokenKind} {space after tail cs' : List Char} (hspace : Blank space)
    (hafter : Blank after) (htail : ∀ c ∈ tail.head?, Text.isBlank c = false)
    (hfits : k.Fits ops delimiter (after ++ tail).head?)
    (hs : (ofCatalog ops delimiter).Reaches
      (offset.skip (space.length +
        (Lexeme.mk k (k.fence delimiter) (after ++ tail)).text.length + after.length))
      tail ts offset' cs') :
    (ofCatalog ops delimiter).Reaches offset
      (space ++ (k.fence delimiter ++ k.content.toList ++ k.fence delimiter ++ (after ++ tail)))
      ((Lexeme.mk k (k.fence delimiter) (after ++ tail)).token offset space after :: ts)
      offset' cs' := by
  obtain ⟨c, cs, hcs, hc⟩ := hfits.exists_cons
  have htext : k.fence delimiter ++ k.content.toList ++ k.fence delimiter ++ (after ++ tail) =
      c :: (cs ++ k.fence delimiter ++ (after ++ tail)) := by
    rw [hcs, List.cons_append, List.cons_append]
  have hhead : ∀ d ∈ (c :: (cs ++ k.fence delimiter ++ (after ++ tail))).head?,
      Text.isBlank d = false := by
    rintro d ⟨⟩
    exact hc
  have hl : (ofCatalog ops delimiter).lexeme (offset.skip space.length) c _ = _ :=
    lexeme_of_fits htext hfits
  rw [htext]
  have h := @Reaches.lexeme (ofCatalog ops delimiter) offset offset'
    (space ++ c :: (cs ++ k.fence delimiter ++ (after ++ tail))) cs' _ _ _ ts
    (dropWhile_append_eq hspace hhead) (by rw [takeWhile_append_eq hspace hhead]; exact hl)
  rw [takeWhile_append_eq hspace hhead, takeWhile_append_eq hafter htail,
    dropWhile_append_eq hafter htail] at h
  exact h hs

/-- A token that fits in front of a character fits in front of the end. -/
lemma fits_of_head? {k : TokenKind} {next next' : Option Char}
    (h : k.Fits ops delimiter next) (hnext : ∀ c ∈ next', next = some c) :
    k.Fits ops delimiter next' := by
  cases next' with
  | none => exact h.of_none
  | some c => rwa [← hnext c rfl]

lemma head?_append {before tail tail' : List Char}
    (h : ∀ c ∈ tail'.head?, tail.head? = some c) :
    ∀ c ∈ (before ++ tail').head?, (before ++ tail).head? = some c := by
  cases before with
  | nil => exact h
  | cons b before =>
      rintro c ⟨⟩
      rfl

/-- **What is read does not depend on what is ahead,** apart from its first character. -/
theorem Reaches.exchange {cs tail tail' : List Char}
    (h : (ofCatalog ops delimiter).Reaches offset cs ts offset' tail)
    (htail : ∀ c ∈ tail'.head?, tail.head? = some c) :
    (ofCatalog ops delimiter).Reaches offset ((TokenList.ofList ts).text.toList ++ tail') ts
      offset' tail' := by
  induction h with
  | refl offset cs => simpa [TokenList.ofList, TokenList.text] using Reaches.refl offset tail'
  | @lexeme offset offset' cs tail rest c l ts hc hl hs ih =>
      obtain ⟨hfence, hfits⟩ := fits_of_lexeme (not_blank_of_dropWhile hc) hl
      obtain ⟨k, fence, behind⟩ := l
      obtain rfl : fence = k.fence delimiter := hfence
      have hahead : ∀ c ∈ ((TokenList.ofList ts).text.toList ++ tail').head?,
          (behind.dropWhile Text.isBlank).head? = some c := by
        rw [hs.text_eq.1]
        exact head?_append htail
      have hnext : ∀ c ∈ (behind.takeWhile Text.isBlank ++
          ((TokenList.ofList ts).text.toList ++ tail')).head?, behind.head? = some c := by
        intro c hc
        rw [← List.takeWhile_append_dropWhile (p := Text.isBlank) (l := behind)]
        exact head?_append hahead c hc
      have h := Reaches.of_fits (blank_takeWhile cs) (blank_takeWhile behind)
        (fun c hc => eq_false_of_head?_dropWhile behind c (hahead c hc)) (fits_of_head? hfits hnext)
        (ih htail)
      rw [text_token_cons]
      simp only [Lexeme.text, List.append_assoc] at h ⊢
      exact h

end Exchange

end Language

end EffectLang
