import EffectLang.Proofs.Grammar.Join

/-!
# The language of item effects

An ambiguous grammar of item effects, over the kinds of tokens alone:

```
effect    = effect ">>" effect | condition "=>" effect | "(" effect ")"
          | name ( "++" | "--" ) | name ( "+=" | "-=" ) amount
condition = name | logic string | "(" condition ")"
amount    = name | number | "(" amount ")"
```

It has no precedence: `C => A++ >> B++` derives both as a conditional and as a chain.  The main
statement is `parse_isItemEffect_iff`: the lists of tokens that parse to an item effect are those
whose kinds the grammar derives.

A tree gives a derivation node by node (`Effect.derives`).  The other way round, a derivation
says which tokens to join but not how they group, so each step joins the trees of its parts
(`effect_of_derives`).
-/

namespace EffectLang

namespace Grammar

/-- One token that passes a test, under any number of parentheses. -/
inductive Enclosed (fit : TokenKind → Bool) : List TokenKind → Prop
  | token {k : TokenKind} (hk : fit k = true) : Enclosed fit [k]
  | group {ks : List TokenKind} (h : Enclosed fit ks) :
      Enclosed fit (.paren .left :: (ks ++ [.paren .right]))

/-- The kinds of the tokens of an item effect. -/
inductive Derives : List TokenKind → Prop
  | chain {ks ls : List TokenKind} (hk : Derives ks) (hl : Derives ls) :
      Derives (ks ++ .operator ">>" :: ls)
  | guard {ks ls : List TokenKind} (hk : Enclosed TokenKind.isCondition ks) (hl : Derives ls) :
      Derives (ks ++ .operator "=>" :: ls)
  | group {ks : List TokenKind} (h : Derives ks) :
      Derives (.paren .left :: (ks ++ [.paren .right]))
  | increment (text : String) : Derives [.name text, .operator "++"]
  | decrement (text : String) : Derives [.name text, .operator "--"]
  | add (text : String) {ks : List TokenKind} (h : Enclosed TokenKind.isAmount ks) :
      Derives (.name text :: .operator "+=" :: ks)
  | subtract (text : String) {ks : List TokenKind} (h : Enclosed TokenKind.isAmount ks) :
      Derives (.name text :: .operator "-=" :: ks)

end Grammar

/-! ## From trees to derivations -/

namespace Expr

open Grammar

/-- A datum is written as its token in parentheses. -/
lemma Datum.enclosed {fit : TokenKind → Bool} {k : TokenKind} {e : Expr} (h : Datum k e)
    (hk : fit k = true) : Enclosed fit (e.tokens.map Token.kind) := by
  induction h with
  | atom ht =>
      rw [tokens_atom, List.map_singleton, ht]
      exact .token hk
  | grouping ho _ hc ih =>
      rw [tokens_grouping, List.map_cons, List.map_append, List.map_singleton, ho, hc]
      exact .group ih

/-- An effect is written as the grammar says. -/
theorem Effect.derives {e : Expr} (h : Effect e) : Derives (e.tokens.map Token.kind) := by
  induction h with
  | increment ht hop =>
      rw [tokens_increment, tokens_atom, List.singleton_append, List.map_cons,
        List.map_singleton, ht]
      rcases hop with hop | hop <;> rw [hop]
      · exact .increment _
      · exact .decrement _
  | assignment ht hop hv hk =>
      rw [tokens_assignment, tokens_atom, List.singleton_append, List.map_cons, List.map_cons, ht]
      rcases hop with hop | hop <;> rw [hop]
      · exact .add _ (hv.enclosed hk)
      · exact .subtract _ (hv.enclosed hk)
  | conditional hc hk hop _ ih =>
      rw [tokens_conditional, List.map_append, List.map_cons, hop]
      exact .guard (hc.enclosed hk) ih
  | chaining _ hop _ ihf ihs =>
      rw [tokens_chaining, List.map_append, List.map_cons, hop]
      exact .chain ihf ihs
  | grouping ho _ hc ih =>
      rw [tokens_grouping, List.map_cons, List.map_append, List.map_singleton, ho, hc]
      exact .group ih

/-- The parser may make a datum of its tokens. -/
lemma Datum.shaped {k : TokenKind} {e : Expr} (h : Datum k e) (hk : k.isAtom = true) :
    Shaped .primary e := by
  induction h with
  | atom ht => exact .atom (by rw [Token.isAtom, ht, hk])
  | grouping ho _ hc ih => exact .grouping ho (Shaped.chain_of_assignment (.ofPrimary ih)) hc

end Expr

/-! ## From derivations to trees -/

namespace Grammar

open EffectLang.Expr

variable {ts : List Token} {k l : TokenKind} {ks ls : List TokenKind}

lemma split_pair (h : ts.map Token.kind = k :: l :: ks) :
    ∃ t op us, ts = t :: op :: us ∧ t.kind = k ∧ op.kind = l ∧ us.map Token.kind = ks := by
  obtain ⟨t, rest, rfl, ht, hrest⟩ := List.map_eq_cons_iff.1 h
  obtain ⟨op, us, rfl, hop, hus⟩ := List.map_eq_cons_iff.1 hrest
  exact ⟨t, op, us, rfl, ht, hop, hus⟩

lemma split_join (h : ts.map Token.kind = ks ++ k :: ls) :
    ∃ us op vs, ts = us ++ op :: vs ∧ us.map Token.kind = ks ∧ op.kind = k ∧
      vs.map Token.kind = ls := by
  obtain ⟨us, rest, rfl, hus, hrest⟩ := List.map_eq_append_iff.1 h
  obtain ⟨op, vs, rfl, hop, hvs⟩ := List.map_eq_cons_iff.1 hrest
  exact ⟨us, op, vs, rfl, hus, hop, hvs⟩

lemma split_group (h : ts.map Token.kind = k :: (ks ++ [l])) :
    ∃ opening us closing, ts = opening :: (us ++ [closing]) ∧ opening.kind = k ∧
      us.map Token.kind = ks ∧ closing.kind = l := by
  obtain ⟨opening, rest, rfl, ho, hrest⟩ := List.map_eq_cons_iff.1 h
  obtain ⟨us, closing, vs, rfl, hus, hc, hvs⟩ := split_join hrest
  obtain rfl := List.map_eq_nil_iff.1 hvs
  exact ⟨opening, us, closing, rfl, ho, hus, hc⟩

/-- A token in parentheses is a datum. -/
lemma datum_of_enclosed {fit : TokenKind → Bool} (h : Enclosed fit ks) :
    ∀ ts : List Token, ts.map Token.kind = ks →
      ∃ k e, fit k = true ∧ Datum k e ∧ e.tokens = ts := by
  induction h with
  | @token k hk =>
      intro ts hts
      obtain ⟨t, rfl, ht⟩ := List.map_eq_singleton_iff.1 hts
      exact ⟨k, .atom t, hk, .atom ht, tokens_atom t⟩
  | group _ ih =>
      intro ts hts
      obtain ⟨opening, us, closing, rfl, ho, hus, hc⟩ := split_group hts
      obtain ⟨k, e, hk, hdatum, rfl⟩ := ih us hus
      exact ⟨k, .grouping opening e closing, hk, .grouping ho hdatum hc, tokens_grouping _ _ _⟩

lemma shaped_name {text : String} {t : Token} (ht : t.kind = .name text) :
    Shaped .primary (.atom t) := by
  refine .atom ?_
  rw [Token.isAtom, ht]
  rfl

lemma effect_of_increment {text : String} {t op : Token} (ht : t.kind = .name text)
    (hop : op.kind = .operator "++" ∨ op.kind = .operator "--") :
    ∃ e, Effect e ∧ Shaped .chain e ∧ e.tokens = [t, op] := by
  refine ⟨.increment (.atom t) op, .increment ht hop, ?_, ?_⟩
  · exact Shaped.chain_of_assignment (.increment (shaped_name ht) hop)
  · rw [tokens_increment, tokens_atom, List.singleton_append]

lemma effect_of_assignment {text : String} {t op : Token} (ht : t.kind = .name text)
    (hop : op.kind = .operator "+=" ∨ op.kind = .operator "-=")
    (h : Enclosed TokenKind.isAmount ks) (hts : ts.map Token.kind = ks) :
    ∃ e, Effect e ∧ Shaped .chain e ∧ e.tokens = t :: op :: ts := by
  obtain ⟨k, value, hk, hdatum, rfl⟩ := datum_of_enclosed h ts hts
  have hvalue : Shaped .primary value := hdatum.shaped (TokenKind.isAtom_of_isAmount hk)
  refine ⟨.assignment (.atom t) op value, .assignment ht hop hdatum hk, ?_, ?_⟩
  · exact Shaped.chain_of_assignment (.assignment (shaped_name ht) hop hvalue)
  · rw [tokens_assignment, tokens_atom, List.singleton_append]

/-- **Every derivation has a tree.**  The tree is grouped as the precedence of the operators
demands, whatever the derivation. -/
theorem effect_of_derives (h : Derives ks) :
    ∀ ts : List Token, ts.map Token.kind = ks →
      ∃ e, Effect e ∧ Shaped .chain e ∧ e.tokens = ts := by
  induction h with
  | chain _ _ ihk ihl =>
      intro ts hts
      obtain ⟨us, op, vs, rfl, hus, hop, hvs⟩ := split_join hts
      obtain ⟨first, hfirst, hfshape, rfl⟩ := ihk us hus
      obtain ⟨second, hsecond, hsshape, rfl⟩ := ihl vs hvs
      refine ⟨first.followedBy op second, ?_, ?_, tokens_followedBy _ _ _⟩
      · exact hfirst.followedBy hop hsecond
      · exact hfshape.followedBy hop hsshape
  | guard hk _ ihl =>
      intro ts hts
      obtain ⟨us, op, vs, rfl, hus, hop, hvs⟩ := split_join hts
      obtain ⟨k, condition, hfit, hdatum, rfl⟩ := datum_of_enclosed hk us hus
      obtain ⟨effect, heffect, hshape, rfl⟩ := ihl vs hvs
      have hcondition : Shaped .primary condition :=
        hdatum.shaped (TokenKind.isAtom_of_isCondition hfit)
      refine ⟨condition.guardedBy op effect, ?_, ?_, tokens_guardedBy _ _ _⟩
      · exact Effect.guardedBy hdatum hfit hop heffect
      · exact Shaped.guardedBy (.ofPrimary hcondition) hop hshape
  | group _ ih =>
      intro ts hts
      obtain ⟨opening, us, closing, rfl, ho, hus, hc⟩ := split_group hts
      obtain ⟨e, heffect, hshape, rfl⟩ := ih us hus
      refine ⟨.grouping opening e closing, .grouping ho heffect hc, ?_, tokens_grouping _ _ _⟩
      exact .chain_grouping ho hshape hc
  | increment text =>
      intro ts hts
      obtain ⟨t, op, us, rfl, ht, hop, hus⟩ := split_pair hts
      obtain rfl := List.map_eq_nil_iff.1 hus
      exact effect_of_increment ht (Or.inl hop)
  | decrement text =>
      intro ts hts
      obtain ⟨t, op, us, rfl, ht, hop, hus⟩ := split_pair hts
      obtain rfl := List.map_eq_nil_iff.1 hus
      exact effect_of_increment ht (Or.inr hop)
  | add text hk =>
      intro ts hts
      obtain ⟨t, op, us, rfl, ht, hop, hus⟩ := split_pair hts
      exact effect_of_assignment ht (Or.inl hop) hk hus
  | subtract text hk =>
      intro ts hts
      obtain ⟨t, op, us, rfl, ht, hop, hus⟩ := split_pair hts
      exact effect_of_assignment ht (Or.inr hop) hk hus

/-- **The language of item effects.**  A list of tokens parses to an item effect exactly when the
ambiguous grammar derives the kinds of its tokens; and an item effect can be read as nothing
else. -/
theorem parse_isItemEffect_iff (ts : List Token) :
    ((∃ e, parse ts = .ok e ∧ e.isItemEffect = true) ↔ Derives (ts.map Token.kind)) ∧
      ∀ e, parse ts = .ok e → e.isItemEffect = true →
        e.evaluate = TypeSet.singleton .itemEffect := by
  refine ⟨⟨?_, ?_⟩, ?_⟩
  · rintro ⟨e, hparse, hitem⟩
    obtain ⟨rfl, -⟩ := shaped_of_parse hparse
    exact (isItemEffect_iff.1 hitem).derives
  · intro h
    obtain ⟨e, heffect, hshape, rfl⟩ := effect_of_derives h ts rfl
    exact ⟨e, parse_tokens hshape, isItemEffect_iff.2 heffect⟩
  · intro e _ hitem
    rw [evaluate_eq, (isItemEffect_iff.1 hitem).verdict]

/-- `C => A++ >> B--`, derived as a condition on a chain. -/
theorem parse_isItemEffect_guarded_chain :
    ∃ e, parse [.bare (.name "C"), .bare (.operator "=>"), .bare (.name "A"),
        .bare (.operator "++"), .bare (.operator ">>"), .bare (.name "B"),
        .bare (.operator "--")] = .ok e ∧
      e.isItemEffect = true ∧ e.evaluate = TypeSet.singleton .itemEffect := by
  have h : Derives [.name "C", .operator "=>", .name "A", .operator "++", .operator ">>",
      .name "B", .operator "--"] :=
    .guard (.token rfl) (.chain (.increment "A") (.decrement "B"))
  obtain ⟨e, hparse, hitem⟩ := (parse_isItemEffect_iff [.bare (.name "C"),
    .bare (.operator "=>"), .bare (.name "A"), .bare (.operator "++"), .bare (.operator ">>"),
    .bare (.name "B"), .bare (.operator "--")]).1.2 h
  exact ⟨e, hparse, hitem, (parse_isItemEffect_iff _).2 e hparse hitem⟩

end Grammar

end EffectLang
