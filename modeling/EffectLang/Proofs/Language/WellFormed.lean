import EffectLang.Proofs.Language.Reach

/-!
# The lexical format

`TokenList.WellFormed` describes the lists of tokens that can be written down and read again, by
rules on each token and on its surroundings: who owns which white space, what a token needs behind
it (`TokenList.Regular`), and where the contents stand.  The main statement is
`tokenize_text_eq_ok_iff`: the text of a list of fewer than `2 ^ 32` characters is cut back into the
same list exactly when the list is well formed.

**Stamps.**  The scanner looks at the spans of its tokens no more than at any other text that it has
read: a list is cut back exactly when it is regular and stamped (`tokenize_text_eq_ok_iff_stamped`),
however long it is.

**From texts to lists.**  What holds of the first token of a scan holds of every token, since a
scan contains the scan of each of its ends (`Scans.suffix`).

**From lists to texts.**  The tokens are read back one after another.  A token and the white space
behind it are read as they were written because the next token does not begin with white space
(`head_text_not_blank`).
-/

namespace EffectLang

/-- What stands around the content of a token: white space, and next to the body of a logic string
its delimiter.  Only the `first` token has white space in front. -/
structure Token.Framed (delimiter : Option Char) (first : Prop) (t : Token) : Prop where
  leading : ∃ space, Blank space ∧ (space ≠ [] → first) ∧
    t.leading.toList = space ++ t.kind.fence delimiter
  trailing : ∃ space, Blank space ∧ t.trailing.toList = t.kind.fence delimiter ++ space

lemma Token.Framed.imp {delimiter : Option Char} {first first' : Prop} {t : Token}
    (h : t.Framed delimiter first) (himp : first → first') : t.Framed delimiter first' := by
  obtain ⟨space, hspace, hfirst, hleading⟩ := h.leading
  exact ⟨⟨space, hspace, fun hne => himp (hfirst hne), hleading⟩, h.trailing⟩

/-- Tokens and white space as they follow one another in a text. -/
structure TokenList.Regular (ops : List String) (delimiter : Option Char) (list : TokenList) :
    Prop where
  blank_trailing : Blank list.trailing.toList
  trailing_eq : list.tokens ≠ [] → list.trailing = ""
  framed : ∀ before t after, list.tokens = before ++ t :: after → t.Framed delimiter (before = [])
  /-- Every token fits the character that comes next after its content. -/
  fits : ∀ before t after, list.tokens = before ++ t :: after →
    t.kind.Fits ops delimiter (t.trailing ++ (TokenList.mk after list.trailing).text).toList.head?

/-- A list of tokens as the text that it makes up is cut into. -/
structure TokenList.WellFormed (ops : List String) (delimiter : Option Char) (list : TokenList) :
    Prop extends list.Regular ops delimiter where
  placed : Placed 0 list.tokens

namespace TokenKind

/-- Only for a logic string does its delimiter follow the content, and it fits anywhere. -/
lemma fits_fence_append {ops : List String} {delimiter : Option Char} {k : TokenKind}
    {rest : List Char} :
    k.Fits ops delimiter (k.fence delimiter ++ rest).head? ↔ k.Fits ops delimiter rest.head? := by
  cases k <;> rfl

end TokenKind

/-- The full text of a token has three parts. -/
lemma Token.toList_fullText (t : Token) :
    t.fullText.toList = t.leading.toList ++ (t.content.toList ++ t.trailing.toList) := by
  simp [fullText]

namespace Language

/-! ## From texts to lists -/

section FromText

variable {L : Language} {ops : List String} {delimiter : Option Char} {offset : Offset}
  {cs : List Char} {list : TokenList}

lemma Scans.blank_trailing (h : L.Scans offset cs list) : Blank list.trailing.toList := by
  induction h with
  | blank hc =>
      rw [String.toList_ofList]
      exact List.dropWhile_eq_nil_iff.1 hc
  | lexeme hc hl hs ih => exact ih

/-- The tokens from any one on are a scan of their own, and white space stands in front of it only
if nothing was read before. -/
lemma Scans.suffix {t : Token} {before after : List Token} (h : L.Scans offset cs list)
    (hlist : list.tokens = before ++ t :: after) :
    ∃ offset' cs' c rest l, cs'.dropWhile Text.isBlank = c :: rest ∧
      L.lexeme (offset'.skip (cs'.takeWhile Text.isBlank).length) c rest = .ok l ∧
      t = l.token offset' (cs'.takeWhile Text.isBlank) (l.rest.takeWhile Text.isBlank) ∧
      (TokenList.mk after list.trailing).text = String.ofList (l.rest.dropWhile Text.isBlank) ∧
      (cs'.takeWhile Text.isBlank ≠ [] → before = [] ∧ cs' = cs) := by
  induction before generalizing offset cs list with
  | nil =>
      cases h with
      | blank hc => cases hlist
      | @lexeme _ _ rest c l list hc hl hs =>
          obtain ⟨rfl, rfl⟩ := List.cons.inj hlist
          exact ⟨offset, cs, c, rest, l, hc, hl, rfl, hs.text, fun _ => ⟨rfl, rfl⟩⟩
  | cons t' before ih =>
      cases h with
      | blank hc => cases hlist
      | @lexeme _ _ rest c l list hc hl hs =>
          obtain ⟨-, htokens⟩ := List.cons.inj hlist
          obtain ⟨offset', cs', c', rest', l', hc', hl', ht, htext, hblank⟩ := ih hs htokens
          refine ⟨offset', cs', c', rest', l', hc', hl', ht, htext, fun hne => ?_⟩
          obtain ⟨-, rfl⟩ := hblank hne
          exact absurd (takeWhile_dropWhile_isBlank l.rest) hne

/-- The tokens of a reading have white space around them. -/
lemma Scans.framed {t : Token} {before after : List Token}
    (h : (ofCatalog ops delimiter).Scans offset cs list)
    (hlist : list.tokens = before ++ t :: after) : t.Framed delimiter (before = []) := by
  obtain ⟨offset', cs', c, rest, l, hc, hl, rfl, -, hblank⟩ := h.suffix hlist
  obtain ⟨hfence, -⟩ := fits_of_lexeme (not_blank_of_dropWhile hc) hl
  refine ⟨⟨_, blank_takeWhile cs', fun hne => (hblank hne).1, ?_⟩, ⟨_, blank_takeWhile l.rest, ?_⟩⟩
  · simp [Lexeme.token, hfence]
  · simp [Lexeme.token, hfence]

/-- The tokens of a reading fit in front of what follows them. -/
lemma Scans.fits {t : Token} {before after : List Token}
    (h : (ofCatalog ops delimiter).Scans offset cs list)
    (hlist : list.tokens = before ++ t :: after) :
    t.kind.Fits ops delimiter
      (t.trailing ++ (TokenList.mk after list.trailing).text).toList.head? := by
  obtain ⟨offset', cs', c, rest, l, hc, hl, rfl, htext, -⟩ := h.suffix hlist
  obtain ⟨hfence, hfits⟩ := fits_of_lexeme (not_blank_of_dropWhile hc) hl
  have hnext : ((l.token offset' (cs'.takeWhile Text.isBlank)
      (l.rest.takeWhile Text.isBlank)).trailing ++
        (TokenList.mk after list.trailing).text).toList = l.kind.fence delimiter ++ l.rest := by
    simp [htext, Lexeme.token, hfence, List.takeWhile_append_dropWhile]
  rw [hnext]
  exact TokenKind.fits_fence_append.2 hfits

/-- What a text is cut into is regular. -/
lemma Scans.regular (h : (ofCatalog ops delimiter).Scans offset cs list) :
    list.Regular ops delimiter where
  blank_trailing := h.blank_trailing
  trailing_eq := h.trailing_eq
  framed _ _ _ hlist := h.framed hlist
  fits _ _ _ hlist := h.fits hlist

end FromText

/-! ## From lists to texts -/

section FromList

variable {ops : List String} {delimiter : Option Char} {trailing : String}

/-- Behind a token the text does not go on with white space of another token. -/
lemma head_text_not_blank {ts : List Token}
    (hframed : ∀ before t after, ts = before ++ t :: after → t.Framed delimiter False)
    (hfits : ∀ before t after, ts = before ++ t :: after → ∃ next, t.kind.Fits ops delimiter next)
    (htrailing : trailing = "") :
    ∀ c ∈ (TokenList.mk ts trailing).text.toList.head?, Text.isBlank c = false := by
  cases ts with
  | nil =>
      subst htrailing
      simp [TokenList.text]
  | cons t ts =>
      obtain ⟨space, -, hfirst, hleading⟩ := (hframed [] t ts rfl).leading
      obtain rfl : space = [] := not_not.1 hfirst
      obtain ⟨next, hnext⟩ := hfits [] t ts rfl
      obtain ⟨c, cs, hcs, hc⟩ := hnext.exists_cons
      have htext : (TokenList.mk (t :: ts) trailing).text.toList =
          c :: (cs ++ (t.trailing.toList ++ (TokenList.mk ts trailing).text.toList)) := by
        rw [TokenList.text_cons, String.toList_append, Token.toList_fullText, hleading,
          List.nil_append, Token.content, ← List.append_assoc, hcs]
        simp
      intro d hd
      rw [htext] at hd
      cases hd
      exact hc

/-- A stamped token with the right text around its content is the token of its lexeme. -/
lemma token_of_framed {t : Token} {offset : Offset} {space after tail : List Char}
    (hspan : t.span =
      ⟨offset.skip t.leading.length, offset.skip (t.leading.length + t.content.length)⟩)
    (hleading : t.leading.toList = space ++ t.kind.fence delimiter)
    (htrailing : t.trailing.toList = t.kind.fence delimiter ++ after) :
    (Lexeme.mk t.kind (t.kind.fence delimiter) tail).token offset space after = t := by
  have hlength : t.leading.length = space.length + (t.kind.fence delimiter).length := by
    rw [← String.length_toList, hleading, List.length_append]
  obtain ⟨kind, span, leading, trailing⟩ := t
  simp only at hspan hleading htrailing hlength
  simp only [Lexeme.token, ← hleading, ← htrailing, String.ofList_toList, hspan, hlength,
    Token.content, Offset.skip_skip]

lemma text_cons_of_framed {t : Token} {ts : List Token} {space after : List Char}
    (hleading : t.leading.toList = space ++ t.kind.fence delimiter)
    (htrailing : t.trailing.toList = t.kind.fence delimiter ++ after) :
    (TokenList.mk (t :: ts) trailing).text.toList = space ++
      (t.kind.fence delimiter ++ t.kind.content.toList ++ t.kind.fence delimiter ++
        (after ++ (TokenList.mk ts trailing).text.toList)) := by
  rw [TokenList.text_cons, String.toList_append, Token.toList_fullText, hleading, htrailing]
  simp [Token.content]

/-- Tokens that keep the rules are read back one after another. -/
theorem scans_text {ts : List Token} {offset : Offset} {first : Prop} (hstamped : Stamped offset ts)
    (hframed : ∀ before t after, ts = before ++ t :: after →
      t.Framed delimiter (before = [] ∧ first))
    (hfits : ∀ before t after, ts = before ++ t :: after →
      t.kind.Fits ops delimiter (t.trailing ++ (TokenList.mk after trailing).text).toList.head?)
    (hblank : Blank trailing.toList) (htrailing : ts ≠ [] → trailing = "") :
    (ofCatalog ops delimiter).Scans offset (TokenList.mk ts trailing).text.toList
      ⟨ts, trailing⟩ := by
  induction ts generalizing offset first with
  | nil =>
      have htext : (TokenList.mk [] trailing).text = trailing := by simp [TokenList.text]
      rw [htext]
      have h : (ofCatalog ops delimiter).Scans offset trailing.toList _ :=
        .blank (List.dropWhile_eq_nil_iff.2 hblank)
      rwa [String.ofList_toList] at h
  | cons t ts ih =>
      have hnil : trailing = "" := htrailing (List.cons_ne_nil _ _)
      have hframedTail : ∀ before u after, ts = before ++ u :: after → u.Framed delimiter False :=
        fun before u after h => (hframed (t :: before) u after (by rw [h]; rfl)).imp (by simp)
      have hfitsTail : ∀ before u after, ts = before ++ u :: after →
          u.kind.Fits ops delimiter
            (u.trailing ++ (TokenList.mk after trailing).text).toList.head? :=
        fun before u after h => hfits (t :: before) u after (by rw [h]; rfl)
      have htail := ih hstamped.2
        (fun before u after h => (hframedTail before u after h).imp
          (False.elim : False → before = [] ∧ False))
        hfitsTail (fun _ => hnil)
      obtain ⟨space, hspace, -, hleading⟩ := (hframed [] t ts rfl).leading
      obtain ⟨after, hafter, hafterEq⟩ := (hframed [] t ts rfl).trailing
      have hfit := hfits [] t ts rfl
      rw [String.toList_append, hafterEq, List.append_assoc,
        TokenKind.fits_fence_append] at hfit
      have hnotBlank := head_text_not_blank hframedTail
        (fun before u after h => ⟨_, hfitsTail before u after h⟩) hnil
      have hlength : t.fullText.length = space.length +
          (Lexeme.mk t.kind (t.kind.fence delimiter)
            (after ++ (TokenList.mk ts trailing).text.toList)).text.length + after.length := by
        rw [← String.length_toList, Token.toList_fullText, hleading, hafterEq]
        simp [Lexeme.text, Token.content]
        omega
      rw [hlength] at htail
      have h := (Reaches.of_fits hspace hafter hnotBlank hfit (.refl _ _)).scans htail
      rwa [← text_cons_of_framed hleading hafterEq,
        token_of_framed hstamped.1 hleading hafterEq] at h

end FromList

/-- However long the text of a list is, it is cut back into that list exactly when the list is
regular and stamped with the places of its contents. -/
theorem tokenize_text_eq_ok_iff_stamped {ops : List String} {delimiter : Option Char}
    {list : TokenList} : (ofCatalog ops delimiter).tokenize list.text = .ok list ↔
      list.Regular ops delimiter ∧ Stamped 0 list.tokens := by
  rw [tokenize_eq_ok_iff]
  constructor
  · intro h
    exact ⟨h.regular, h.stamped⟩
  · rintro ⟨h, hstamped⟩
    exact scans_text hstamped
      (fun before t after hlist => (h.framed before t after hlist).imp
        (fun hnil => ⟨hnil, trivial⟩ : before = [] → before = [] ∧ True))
      h.fits h.blank_trailing h.trailing_eq

/-- **The lexical format.**  The text of a list is cut back into that list exactly when the list is
regular and its spans say in 32 bits where the contents stand.  So the text of a well-formed list is
cut back; and below `2 ^ 32` characters the lists that are cut back are the well-formed ones. -/
theorem tokenize_text_eq_ok_iff (ops : List String) (delimiter : Option Char) (list : TokenList) :
    ((ofCatalog ops delimiter).tokenize list.text = .ok list ↔
        list.Regular ops delimiter ∧ Stamped 0 list.tokens) ∧
      (list.WellFormed ops delimiter →
        (ofCatalog ops delimiter).tokenize list.text = .ok list) ∧
      (list.text.length < 2 ^ 32 →
        ((ofCatalog ops delimiter).tokenize list.text = .ok list ↔
          list.WellFormed ops delimiter)) := by
  have hback : list.WellFormed ops delimiter →
      (ofCatalog ops delimiter).tokenize list.text = .ok list := fun h =>
    tokenize_text_eq_ok_iff_stamped.2 ⟨h.toRegular, h.placed.stamped⟩
  refine ⟨tokenize_text_eq_ok_iff_stamped, hback, fun hsize => ⟨fun h => ?_, hback⟩⟩
  have hplaced := (tokenize_eq_ok_iff.1 h).placed (by rwa [String.length_toList])
  exact ⟨(tokenize_text_eq_ok_iff_stamped.1 h).1, hplaced⟩

/-- A logic string and an operator that is a beginning of another one are well formed behind white
space; with the operator stamped one character further on they are not, and are not cut back. -/
theorem tokenize_text_eq_ok_iff_logic :
    (ofCatalog ["+", "+=="] (some '`')).tokenize " `x`+ " =
        .ok ⟨[⟨.logic "x", ⟨2, 3⟩, " `", "`"⟩, ⟨.operator "+", ⟨4, 5⟩, "", " "⟩], ""⟩ ∧
      " `x`+ ".length < 2 ^ 32 ∧
      (TokenList.mk [⟨.logic "x", ⟨2, 3⟩, " `", "`"⟩, ⟨.operator "+", ⟨4, 5⟩, "", " "⟩]
        "").WellFormed ["+", "+=="] (some '`') ∧
      ¬ (TokenList.mk [⟨.logic "x", ⟨2, 3⟩, " `", "`"⟩, ⟨.operator "+", ⟨5, 6⟩, "", " "⟩]
        "").WellFormed ["+", "+=="] (some '`') := by
  have h : (ofCatalog ["+", "+=="] (some '`')).tokenize " `x`+ " =
      .ok ⟨[⟨.logic "x", ⟨2, 3⟩, " `", "`"⟩, ⟨.operator "+", ⟨4, 5⟩, "", " "⟩], ""⟩ := by cbv
  refine ⟨h, by decide, ((tokenize_text_eq_ok_iff _ _ _).2.2 (by decide)).1 h, fun hformed => ?_⟩
  have htext : (TokenList.mk [⟨.logic "x", ⟨2, 3⟩, " `", "`"⟩, ⟨.operator "+", ⟨5, 6⟩, "", " "⟩]
      "").text = " `x`+ " := by decide
  have h' := (tokenize_text_eq_ok_iff _ _ _).2.1 hformed
  rw [htext, h] at h'
  exact absurd h' (by decide)

/-- Two names are cut back as they are, though the second one is stamped `2 ^ 32` characters before
its place. -/
theorem tokenize_text_eq_ok_iff_overlong :
    ∃ list : TokenList, itemEffects.tokenize list.text = .ok list ∧
      ¬ list.WellFormed ItemOperator.catalog (some '`') := by
  obtain ⟨t, u, h, hpos, -, hleading, hspan⟩ := tokenize_behind_spaces
  have htext := (tokenize_eq_ok_iff.1 h).text
  rw [String.ofList_toList] at htext
  refine ⟨_, htext.symm ▸ h, fun hformed => ?_⟩
  have hstart := (Stretch.mk.inj hformed.placed.2.1).1
  rw [hspan, hleading, UInt32.toNat_zero] at hstart
  omega

end Language

end EffectLang
