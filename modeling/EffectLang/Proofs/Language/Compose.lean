import EffectLang.Proofs.Grammar.Derivation
import EffectLang.Proofs.Language.Layout
import EffectLang.Proofs.Language.RoundTrip

/-!
# Item effects are put together as texts

Two item effects with `>>` between them are an item effect, and so is one behind a condition and
`=>`; parentheses around a text that is accepted change nothing but its root (`check_composes`).
No white space is needed at the seams.

**The tokens.**  `TokenKind.Separates` says what a token must be like to stand between any two
texts: every token can end in front of it, and it can end in front of every character.  Then the
text is cut into the tokens of the two parts and this token between them
(`CutInto.separated`).  In the language of item effects the parentheses and all operators
are like that: no operator begins another one, since all of them have two characters.

**The trees.**  The tree of the whole is no node over the trees of the parts: a chain is grouped
to the right, and a condition in front of a chain guards its first link only.  But the grammar
`Grammar.Derives` joins lists of kinds without regard to that, and it derives exactly the item
effects (`derives_of_check`, `CutInto.check_of_derives`).
-/

namespace EffectLang

/-! ## Texts with a token between them -/

/-- A token that may stand between any two texts. -/
structure TokenKind.Separates (ops : List String) (delimiter : Option Char) (k : TokenKind) :
    Prop where
  fence_eq : k.fence delimiter = []
  fits : ∀ next, k.Fits ops delimiter next
  /-- Any token can end in front of it. -/
  ends : ∀ l : TokenKind, l.Fits ops delimiter none → l.Fits ops delimiter k.content.toList.head?

/-- Pieces that can stand in front of others. -/
lemma Fitting.append {ops : List String} {delimiter : Option Char} {ps qs : List Piece}
    (h : Fitting ops delimiter ps) (h' : Fitting ops delimiter qs)
    (hends : ∀ k : TokenKind, k.Fits ops delimiter none →
      k.Fits ops delimiter (qs.flatMap (Piece.chars delimiter)).head?) :
    Fitting ops delimiter (ps ++ qs) := by
  induction h with
  | nil => exact h'
  | @cons p ps hgap hfits _ ih =>
      rw [List.cons_append]
      refine .cons hgap ?_ ih
      rw [List.flatMap_append, ← List.append_assoc]
      cases hbehind : p.gap ++ ps.flatMap (Piece.chars delimiter) with
      | nil =>
          rw [hbehind] at hfits
          exact hends p.kind hfits
      | cons c cs =>
          rw [hbehind] at hfits
          exact hfits

namespace Language

/-- The text is cut into tokens of these kinds. -/
def CutInto (L : Language) (source : String) (ks : List TokenKind) : Prop :=
  ∃ list, L.tokenize source = .ok list ∧ list.tokens.map Token.kind = ks

section Separates

variable {ops : List String} {delimiter : Option Char} {a b : String} {ks ls : List TokenKind}
  {k : TokenKind}

lemma CutInto.exists_pieces (h : (ofCatalog ops delimiter).CutInto a ks) :
    ∃ space ps, Blank space ∧ Fitting ops delimiter ps ∧
      a.toList = space ++ ps.flatMap (Piece.chars delimiter) ∧ ps.map Piece.kind = ks := by
  obtain ⟨list, hlist, rfl⟩ := h
  obtain ⟨hfitting, hchars⟩ := fitting_of_scans (tokenize_eq_ok_iff.1 hlist)
  refine ⟨a.toList.takeWhile Text.isBlank, _, blank_takeWhile _, hfitting, ?_, ?_⟩
  · rw [hchars, List.takeWhile_append_dropWhile]
  · rw [List.map_map]
    rfl

/-- **A separator leaves the tokens on both sides of it as they were.** -/
theorem CutInto.separated (ha : (ofCatalog ops delimiter).CutInto a ks)
    (hk : k.Separates ops delimiter) (hb : (ofCatalog ops delimiter).CutInto b ls) :
    (ofCatalog ops delimiter).CutInto (a ++ k.content ++ b) (ks ++ k :: ls) := by
  obtain ⟨space, ps, hspace, hps, hatext, rfl⟩ := ha.exists_pieces
  obtain ⟨gap, qs, hgap, hqs, hbtext, rfl⟩ := hb.exists_pieces
  -- The white space in front of the second text is now the white space behind the separator.
  have hchars : (Piece.mk k gap :: qs).flatMap (Piece.chars delimiter) =
      k.content.toList ++ b.toList := by
    rw [List.flatMap_cons, Piece.chars, hk.fence_eq, hbtext]
    simp
  have hfitting : Fitting ops delimiter (ps ++ ⟨k, gap⟩ :: qs) := by
    refine hps.append (.cons hgap (hk.fits _) hqs) fun l hl => ?_
    obtain ⟨c, cs, hcs, -⟩ := (hk.fits none).exists_cons
    rw [hk.fence_eq, List.nil_append] at hcs
    have hends := hk.ends l hl
    rw [hcs] at hends
    rw [hchars, hcs]
    exact hends
  obtain ⟨list, hscans, hkinds⟩ := exists_scans_of_fitting hfitting 0 space hspace
  rw [List.flatMap_append, hchars, ← List.append_assoc, ← hatext] at hscans
  refine ⟨list, tokenize_eq_ok_iff.2 ?_, ?_⟩
  · simpa using hscans
  · rw [hkinds, List.map_append, List.map_cons]

end Separates

/-! ## Separators of item effects -/

section ItemEffects

/-- No operator begins another one. -/
lemma not_begins_catalog {symbol : String} (h : symbol ∈ ItemOperator.catalog) (c : Char) :
    ¬ Begins ItemOperator.catalog (symbol.toList ++ [c]) := by
  obtain ⟨a, b, hpair⟩ := exists_pair_of_mem_catalog h
  rw [hpair]
  intro hbegins
  exact absurd (begins_pair_iff.1 hbegins).2 (List.cons_ne_nil _ _)

/-- In front of what belongs to no word every token can end. -/
lemma fits_of_not_wordChar {k : TokenKind} {next : Option Char}
    (h : k.Fits ItemOperator.catalog (some '`') none)
    (hnext : ∀ c ∈ next, ¬ WordChar ItemOperator.catalog (some '`') c) :
    k.Fits ItemOperator.catalog (some '`') next := by
  cases k with
  | name text => exact ⟨⟨h.1.ne_nil, h.1.wordChar, hnext⟩, h.2⟩
  | number value => exact ⟨h.ne_nil, h.wordChar, hnext⟩
  | operator symbol => exact ⟨h.1, h.2.1, fun c _ => not_begins_catalog h.1 c⟩
  | paren side => trivial
  | logic body => exact h

/-- A parenthesis is read apart from what stands beside it. -/
lemma separates_paren (side : Paren) :
    (TokenKind.paren side).Separates ItemOperator.catalog (some '`') where
  fence_eq := rfl
  fits _ := trivial
  ends l hl := by
    refine fits_of_not_wordChar hl ?_
    cases side with
    | left =>
        rintro c ⟨⟩ hword
        exact hword.ne_left rfl
    | right =>
        rintro c ⟨⟩ hword
        exact hword.ne_right rfl

/-- An operator of item effects is read apart from operands and parentheses beside it. -/
lemma separates_operator (op : ItemOperator) :
    (TokenKind.operator op.symbol).Separates ItemOperator.catalog (some '`') := by
  have hmem : op.symbol ∈ ItemOperator.catalog := by cases op <;> decide
  obtain ⟨c, cs, hcs, hplain⟩ : ∃ c cs, op.symbol.toList = c :: cs ∧ PlainChar (some '`') c := by
    cases op <;> exact ⟨_, _, rfl, by decide, by decide, by decide, by decide⟩
  refine ⟨rfl, fun next => ⟨hmem, ⟨c, cs, hcs, hplain⟩, ?_⟩, fun l hl => ?_⟩
  · exact fun d _ => not_begins_catalog hmem d
  · refine fits_of_not_wordChar hl ?_
    rw [TokenKind.content, hcs]
    rintro d ⟨⟩ hword
    exact hword.not_reserved _ hmem (by rw [hcs]; exact List.mem_cons_self)

end ItemEffects

end Language

/-! ## The verdict on a text -/

/-- The names among tokens of these kinds. -/
def TokenKind.names (ks : List TokenKind) : List String :=
  ks.filterMap fun k => (Token.bare k).name?

namespace TokenKind

lemma names_operator (ks ls : List TokenKind) (symbol : String) :
    names (ks ++ operator symbol :: ls) = names ks ++ names ls :=
  List.filterMap_append

lemma names_group (ks : List TokenKind) :
    names (paren .left :: (ks ++ [paren .right])) = names ks := by
  simp [names, Token.bare, Token.name?]

end TokenKind

/-- The names of a tree are those of its tokens. -/
lemma Expr.names_eq (e : Expr) : e.names = TokenKind.names (e.tokens.map Token.kind) := by
  rw [TokenKind.names, List.filterMap_map]
  rfl

/-- An item effect that can be read as nothing else and refers to these names. -/
structure EffectCheck.ActsOn (names : List String) (c : EffectCheck) : Prop where
  isItemEffect : c.isItemEffect = true
  types : c.types = TypeSet.singleton .itemEffect
  names : c.expr.names = names

namespace Language

variable {L : Language} {source : String} {list : TokenList} {c : EffectCheck} {e : Expr}
  {ks : List TokenKind}

/-- What a text is checked as, from its tokens and their tree. -/
lemma check_of_tokens (hlist : L.tokenize source = .ok list)
    (hparse : Grammar.parse list.tokens = .ok e) :
    L.check source = .ok ⟨e, e.verdict.valid, e.verdict.types⟩ := by
  rw [← Expr.check_eq_verdict]
  exact check_of_parse (parse_eq_ok_iff_tokenize.2 ⟨list, hlist, hparse⟩)

/-- A text that is accepted is cut into the tokens of its tree, and the tree is judged. -/
lemma parts_of_check (h : L.check source = .ok c) :
    L.CutInto source (c.expr.tokens.map Token.kind) ∧ Grammar.Shaped .chain c.expr ∧
      c.valid = c.expr.verdict.valid ∧ c.types = c.expr.verdict.types := by
  cases hparse : L.parse source with
  | error err =>
      rw [check_of_parse_error hparse] at h
      cases h
  | ok e =>
      rw [check_of_parse hparse, Expr.check_eq_verdict] at h
      cases h
      obtain ⟨list, hlist, hparse⟩ := parse_eq_ok_iff_tokenize.1 hparse
      obtain ⟨htokens, hshape⟩ := Grammar.shaped_of_parse hparse
      exact ⟨⟨list, hlist, by rw [htokens]⟩, hshape, rfl, rfl⟩

/-- The tokens of an item effect are derived. -/
lemma derives_of_check (h : L.check source = .ok c) (hitem : c.isItemEffect = true) :
    Grammar.Derives (c.expr.tokens.map Token.kind) := by
  obtain ⟨-, -, hvalid, htypes⟩ := parts_of_check h
  have heffect : c.expr.isItemEffect = true := by
    rw [Expr.isItemEffect, Expr.check_eq_verdict, Verdict.isItemEffect, ← hvalid, ← htypes]
    exact hitem
  exact (Expr.isItemEffect_iff.1 heffect).derives

/-- A text that can be read as a condition is a name or a logic string in parentheses. -/
lemma enclosed_of_check (h : L.check source = .ok c) (hvalid : c.valid = true)
    (hbool : c.types.has .bool = true) :
    Grammar.Enclosed TokenKind.isCondition (c.expr.tokens.map Token.kind) := by
  obtain ⟨-, -, hvalidEq, htypes⟩ := parts_of_check h
  rw [hvalidEq] at hvalid
  rw [htypes] at hbool
  rcases Expr.datum_or_effect_of_valid hvalid with ⟨k, hk, hdatum⟩ | heffect
  · rw [hdatum.verdict hk, TokenKind.has_bool_ofAtom] at hbool
    exact hdatum.enclosed hbool
  · rw [heffect.verdict] at hbool
    cases hbool

/-- A text that is cut into derived tokens is an item effect, on the names among them. -/
lemma CutInto.check_of_derives (hcut : L.CutInto source ks) (h : Grammar.Derives ks) :
    ∃ r, L.check source = .ok r ∧ r.ActsOn (TokenKind.names ks) := by
  obtain ⟨list, hlist, rfl⟩ := hcut
  obtain ⟨e, heffect, hshape, htokens⟩ := Grammar.effect_of_derives h list.tokens rfl
  have hparse : Grammar.parse list.tokens = .ok e := htokens ▸ Grammar.parse_tokens hshape
  refine ⟨_, check_of_tokens hlist hparse, ?_, ?_, ?_⟩
  · rw [heffect.verdict]
    rfl
  · rw [heffect.verdict]
  · rw [Expr.names_eq, htokens]

/-! ## Putting texts together -/

section Compose

variable {a b d text : String} {ca cb cc cd : EffectCheck}

/-- Two item effects joined by `>>` are an item effect, on the names of both. -/
theorem check_chain (ha : itemEffects.check a = .ok ca) (hb : itemEffects.check b = .ok cb)
    (haitem : ca.isItemEffect = true) (hbitem : cb.isItemEffect = true) :
    ∃ r, itemEffects.check (a ++ ">>" ++ b) = .ok r ∧
      r.ActsOn (ca.expr.names ++ cb.expr.names) := by
  have hcut := (parts_of_check ha).1.separated (separates_operator .chain) (parts_of_check hb).1
  have hderives := (derives_of_check ha haitem).chain (derives_of_check hb hbitem)
  obtain ⟨r, hr, hacts⟩ := hcut.check_of_derives hderives
  rw [TokenKind.names_operator, ← Expr.names_eq, ← Expr.names_eq] at hacts
  exact ⟨r, hr, hacts⟩

/-- A condition and an item effect joined by `=>` are an item effect, on the names of both. -/
theorem check_guard (hc : itemEffects.check text = .ok cc) (ha : itemEffects.check a = .ok ca)
    (hvalid : cc.valid = true) (hbool : cc.types.has .bool = true)
    (haitem : ca.isItemEffect = true) :
    ∃ r, itemEffects.check (text ++ "=>" ++ a) = .ok r ∧
      r.ActsOn (cc.expr.names ++ ca.expr.names) := by
  have hcut :=
    (parts_of_check hc).1.separated (separates_operator .conditional) (parts_of_check ha).1
  have hderives := Grammar.Derives.guard (enclosed_of_check hc hvalid hbool)
    (derives_of_check ha haitem)
  obtain ⟨r, hr, hacts⟩ := hcut.check_of_derives hderives
  rw [TokenKind.names_operator, ← Expr.names_eq, ← Expr.names_eq] at hacts
  exact ⟨r, hr, hacts⟩

/-- Parentheses around a text are read apart from it. -/
lemma CutInto.group (h : itemEffects.CutInto d ks) :
    itemEffects.CutInto ("(" ++ d ++ ")") (.paren .left :: (ks ++ [.paren .right])) := by
  have hnil : itemEffects.CutInto "" [] := ⟨TokenList.empty, by cbv, rfl⟩
  have hgroup := (hnil.separated (separates_paren .left) h).separated (separates_paren .right) hnil
  rwa [String.append_empty, String.empty_append] at hgroup

/-- The same tree can be written with other tokens of the same kinds. -/
lemma exists_shaped_of_kinds_eq {us : List Token} (h : Grammar.Shaped .chain e)
    (hus : us.map Token.kind = e.tokens.map Token.kind) :
    ∃ e', Grammar.Shaped .chain e' ∧ e'.tokens = us ∧ e'.verdict = e.verdict ∧
      e'.names = e.names := by
  have halike : Grammar.Alike (Grammar.parse e.tokens) (Grammar.parse us) :=
    Grammar.alike_of_erase_eq (by rw [map_erase_eq, map_erase_eq, hus])
  rw [Grammar.parse_tokens h] at halike
  generalize hparse : Grammar.parse us = outcome at halike
  cases halike with
  | @ok _ e' htree =>
      obtain ⟨htokens, hshape⟩ := Grammar.shaped_of_parse hparse
      obtain ⟨hcheck, hnames⟩ := Expr.check_eq_of_erase_eq htree
      rw [Expr.check_eq_verdict, Expr.check_eq_verdict] at hcheck
      exact ⟨e', hshape, htokens, hcheck.symm, hnames.symm⟩

/-- A text in parentheses is checked as a group, with the result of the text alone. -/
theorem check_group (hd : itemEffects.check d = .ok cd) :
    ∃ r, itemEffects.check ("(" ++ d ++ ")") = .ok r ∧ r.expr.kind = .grouping ∧
      r.valid = cd.valid ∧ r.types = cd.types ∧ r.expr.names = cd.expr.names := by
  obtain ⟨hcut, hshape, hvalid, htypes⟩ := parts_of_check hd
  obtain ⟨list, hlist, hkinds⟩ := hcut.group
  obtain ⟨opening, us, closing, htokens, ho, hus, hc⟩ := Grammar.split_group hkinds
  obtain ⟨inner, hinner, rfl, hverdict, hnames⟩ := exists_shaped_of_kinds_eq hshape hus
  have hparse : Grammar.parse list.tokens = .ok (.grouping opening inner closing) := by
    rw [htokens]
    exact Grammar.parse_enclosed ho (Grammar.parse_tokens hinner) hc
  refine ⟨_, check_of_tokens hlist hparse, rfl, ?_, ?_, ?_⟩
  · rw [hvalid, Expr.verdict_grouping ho hc, hverdict]
  · rw [htypes, Expr.verdict_grouping ho hc, hverdict]
  · rw [← hnames, Expr.names_eq, Expr.tokens_grouping, ← htokens, hkinds,
      TokenKind.names_group, Expr.names_eq, hus]

end Compose

/-- **Item effects are put together as texts,** with nothing at the seams.  Two item effects may be
joined by `>>`, and a condition may be put in front of one with `=>`: the whole is an item effect
that refers to the names of its parts in order.  And parentheses may be put around any text that is
accepted, whether it makes sense or not. -/
theorem check_composes :
    (∀ a b ca cb, itemEffects.check a = .ok ca → itemEffects.check b = .ok cb →
      ca.isItemEffect = true → cb.isItemEffect = true →
        ∃ r, itemEffects.check (a ++ ">>" ++ b) = .ok r ∧
          r.ActsOn (ca.expr.names ++ cb.expr.names)) ∧
    (∀ c a cc ca, itemEffects.check c = .ok cc → itemEffects.check a = .ok ca →
      cc.valid = true → cc.types.has .bool = true → ca.isItemEffect = true →
        ∃ r, itemEffects.check (c ++ "=>" ++ a) = .ok r ∧
          r.ActsOn (cc.expr.names ++ ca.expr.names)) ∧
    ∀ d cd, itemEffects.check d = .ok cd →
      ∃ r, itemEffects.check ("(" ++ d ++ ")") = .ok r ∧ r.expr.kind = .grouping ∧
        r.valid = cd.valid ∧ r.types = cd.types ∧ r.expr.names = cd.expr.names :=
  ⟨fun _ _ _ _ ha hb hitem hitem' => check_chain ha hb hitem hitem',
    fun _ _ _ _ hc ha hvalid hbool hitem => check_guard hc ha hvalid hbool hitem,
    fun _ _ hd => check_group hd⟩

/-- A chain behind an effect and behind a condition, and a group around a text that makes no
sense. -/
theorem check_composes_guarded_chain :
    ∃ chained guarded grouped,
      itemEffects.check ("A++" ++ ">>" ++ "B-=2>>C++") = .ok chained ∧
        chained.ActsOn ["A", "B", "C"] ∧
      itemEffects.check ("(K)" ++ "=>" ++ "B-=2>>C++") = .ok guarded ∧
        guarded.ActsOn ["K", "B", "C"] ∧
      itemEffects.check ("(" ++ "K=>1" ++ ")") = .ok grouped ∧
        (grouped.expr.kind, grouped.valid, grouped.expr.names) =
          (ExprKind.grouping, false, ["K"]) := by
  have hincrement : itemEffects.check "A++" =
      .ok ⟨.increment (.atom ⟨.name "A", ⟨0, 1⟩, "", ""⟩) ⟨.operator "++", ⟨1, 3⟩, "", ""⟩,
        true, TypeSet.singleton .itemEffect⟩ := by cbv
  have hchain : itemEffects.check "B-=2>>C++" =
      .ok ⟨.chaining
          (.assignment (.atom ⟨.name "B", ⟨0, 1⟩, "", ""⟩) ⟨.operator "-=", ⟨1, 3⟩, "", ""⟩
            (.atom ⟨.number 2, ⟨3, 4⟩, "", ""⟩))
          ⟨.operator ">>", ⟨4, 6⟩, "", ""⟩
          (.increment (.atom ⟨.name "C", ⟨6, 7⟩, "", ""⟩) ⟨.operator "++", ⟨7, 9⟩, "", ""⟩),
        true, TypeSet.singleton .itemEffect⟩ := by cbv
  have hcondition : itemEffects.check "(K)" =
      .ok ⟨.grouping ⟨.paren .left, ⟨0, 1⟩, "", ""⟩ (.atom ⟨.name "K", ⟨1, 2⟩, "", ""⟩)
        ⟨.paren .right, ⟨2, 3⟩, "", ""⟩, true, TypeSet.ofList [.termLike, .bool]⟩ := by cbv
  have hsenseless : itemEffects.check "K=>1" =
      .ok ⟨.conditional (.atom ⟨.name "K", ⟨0, 1⟩, "", ""⟩) ⟨.operator "=>", ⟨1, 3⟩, "", ""⟩
        (.atom ⟨.number 1, ⟨3, 4⟩, "", ""⟩), false, TypeSet.singleton .int⟩ := by cbv
  obtain ⟨hjoin, hguard, hgroup⟩ := check_composes
  obtain ⟨chained, hchained, hacts⟩ := hjoin _ _ _ _ hincrement hchain rfl rfl
  obtain ⟨guarded, hguarded, hacts'⟩ := hguard _ _ _ _ hcondition hchain rfl rfl rfl
  obtain ⟨grouped, hgrouped, hkind, hvalid, -, hnames⟩ := hgroup _ _ hsenseless
  refine ⟨chained, guarded, grouped, hchained, ?_, hguarded, ?_, hgrouped, ?_⟩
  · exact ⟨hacts.isItemEffect, hacts.types, hacts.names.trans (by cbv)⟩
  · exact ⟨hacts'.isItemEffect, hacts'.types, hacts'.names.trans (by cbv)⟩
  · rw [hkind, hvalid, hnames]
    cbv

end Language

end EffectLang
