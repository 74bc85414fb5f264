import EffectLang.Expr.Verdict
import EffectLang.Proofs.Token.Kind

/-!
# The trees that make sense

Two families of trees, said without types and verdicts.  A datum is one atom under any number of
parentheses; an effect changes names, perhaps on a condition, perhaps one change after another.
Neither looks at precedence: any effect may stand below `=>` or to the left of `>>`.

`Datum.verdict` and `Effect.verdict` say that both families are legal and what they can be read
as; `datum_or_effect_of_valid` says that the verdict knows no other legal trees.  Hence
`isItemEffect_iff`: the item effects are the effects.  The main statement is
`validate_and_evaluate`: of any tree whatsoever the two questions are answered by the two families.
-/

namespace EffectLang

namespace TokenKind

/-- Fit to be added to a name or taken from it. -/
def isAmount : TokenKind → Bool
  | name _ => true
  | number _ => true
  | operator _ => false
  | paren _ => false
  | logic _ => false

/-- Fit to be a condition. -/
def isCondition : TokenKind → Bool
  | name _ => true
  | number _ => false
  | operator _ => false
  | paren _ => false
  | logic _ => true

/-- Names and numbers, and no other tokens, can be added to a name. -/
lemma isNumeric_ofAtom (k : TokenKind) : (TypeSet.ofAtom k).isNumeric = k.isAmount := by
  cases k <;> rfl

/-- Names and logic strings, and no other tokens, can be conditions. -/
lemma has_bool_ofAtom (k : TokenKind) : (TypeSet.ofAtom k).has .bool = k.isCondition := by
  cases k <;> rfl

/-- No atom is an action. -/
lemma has_itemEffect_ofAtom (k : TokenKind) : (TypeSet.ofAtom k).has .itemEffect = false := by
  cases k <;> rfl

lemma isAtom_of_isAmount {k : TokenKind} (h : k.isAmount = true) : k.isAtom = true := by
  cases k <;> simp_all [isAmount, isAtom]

lemma isAtom_of_isCondition {k : TokenKind} (h : k.isCondition = true) : k.isAtom = true := by
  cases k <;> simp_all [isCondition, isAtom]

end TokenKind

namespace Expr

/-- One atom of kind `k` under any number of parentheses. -/
inductive Datum (k : TokenKind) : Expr → Prop
  | atom {t : Token} (ht : t.kind = k) : Datum k (.atom t)
  | grouping {opening closing : Token} {inner : Expr} (ho : opening.kind = .paren .left)
      (hi : Datum k inner) (hc : closing.kind = .paren .right) :
      Datum k (.grouping opening inner closing)

/-- A legal effect. -/
inductive Effect : Expr → Prop
  | increment {t op : Token} {text : String} (ht : t.kind = .name text)
      (hop : op.kind = .operator "++" ∨ op.kind = .operator "--") :
      Effect (.increment (.atom t) op)
  | assignment {t op : Token} {text : String} {k : TokenKind} {value : Expr}
      (ht : t.kind = .name text) (hop : op.kind = .operator "+=" ∨ op.kind = .operator "-=")
      (hv : Datum k value) (hk : k.isAmount = true) : Effect (.assignment (.atom t) op value)
  | conditional {op : Token} {k : TokenKind} {condition effect : Expr} (hc : Datum k condition)
      (hk : k.isCondition = true) (hop : op.kind = .operator "=>") (he : Effect effect) :
      Effect (.conditional condition op effect)
  | chaining {op : Token} {first second : Expr} (hf : Effect first)
      (hop : op.kind = .operator ">>") (hs : Effect second) : Effect (.chaining first op second)
  | grouping {opening closing : Token} {inner : Expr} (ho : opening.kind = .paren .left)
      (hi : Effect inner) (hc : closing.kind = .paren .right) :
      Effect (.grouping opening inner closing)

/-- A group between parentheses is judged like its inside. -/
lemma verdict_grouping {opening closing : Token} (ho : opening.kind = .paren .left)
    (hc : closing.kind = .paren .right) (e : Expr) :
    (grouping opening e closing).verdict = e.verdict := by
  rw [verdict, Verdict.grouping, Token.isParen_iff.2 ho, Token.isParen_iff.2 hc, Bool.true_and,
    Bool.true_and]

/-- Groups around a datum change nothing about it. -/
lemma Datum.verdict {k : TokenKind} {e : Expr} (h : Datum k e) (hk : k.isAtom = true) :
    e.verdict = ⟨true, TypeSet.ofAtom k⟩ := by
  induction h with
  | atom ht => simp [Expr.verdict, Verdict.atom, Token.isAtom, ht, hk]
  | grouping ho _ hc ih => rw [verdict_grouping ho hc, ih]

/-- An effect is legal, and it is nothing but an effect. -/
theorem Effect.verdict {e : Expr} (h : Effect e) :
    e.verdict = ⟨true, TypeSet.singleton .itemEffect⟩ := by
  induction h with
  | increment ht hop =>
      have hcl := Token.operatorClass?_eq_postfixed.2 hop
      simp [Expr.verdict, Verdict.increment, isName, Token.name?, ht, hcl, TypeSet.effectIf]
  | assignment ht hop hv hk =>
      have hcl := Token.operatorClass?_eq_assignment.2 hop
      have hvalue := hv.verdict (TokenKind.isAtom_of_isAmount hk)
      simp [Expr.verdict, Verdict.assignment, isName, Token.name?, ht, hcl, hvalue,
        TokenKind.isNumeric_ofAtom, hk, TypeSet.effectIf]
  | conditional hc hk hop _ ih =>
      have hcondition := hc.verdict (TokenKind.isAtom_of_isCondition hk)
      simp only [Expr.verdict, Verdict.conditional, hcondition, ih, TokenKind.has_bool_ofAtom, hk]
      simp [Token.isOperator_iff, ItemOperator.symbol, hop, TypeSet.singleton]
  | chaining _ hop _ ihf ihs =>
      simp only [Expr.verdict, Verdict.chaining, ihf, ihs]
      simp [Token.isOperator_iff, ItemOperator.symbol, hop, TypeSet.singleton, TypeSet.effectIf]
  | grouping ho _ hc ih => rw [verdict_grouping ho hc, ih]

/-- The bare names are the atoms of names. -/
lemma isName_iff {e : Expr} : e.isName = true ↔ ∃ t text, e = atom t ∧ t.kind = .name text := by
  cases e with
  | atom t => cases h : t.kind <;> simp [isName, Token.name?, h]
  | _ => simp [isName]

/-- A legal tree is a datum or an effect. -/
theorem datum_or_effect_of_valid {e : Expr} (h : e.verdict.valid = true) :
    (∃ k, k.isAtom = true ∧ Datum k e) ∨ Effect e := by
  induction e with
  | atom t => exact Or.inl ⟨t.kind, h, .atom rfl⟩
  | grouping opening inner closing ih =>
      simp only [Expr.verdict, Verdict.grouping, Bool.and_eq_true, Token.isParen_iff] at h
      obtain ⟨⟨ho, hc⟩, hinner⟩ := h
      rcases ih hinner with ⟨k, hk, hdatum⟩ | heffect
      · exact Or.inl ⟨k, hk, .grouping ho hdatum hc⟩
      · exact Or.inr (.grouping ho heffect hc)
  | increment operand op =>
      simp only [Expr.verdict, Verdict.increment, Bool.and_eq_true, beq_iff_eq] at h
      obtain ⟨hname, hop⟩ := h
      obtain ⟨t, text, rfl, ht⟩ := isName_iff.1 hname
      exact Or.inr (.increment ht (Token.operatorClass?_eq_postfixed.1 hop))
  | assignment target op value _ ih =>
      simp only [Expr.verdict, Verdict.assignment, Bool.and_eq_true, beq_iff_eq] at h
      obtain ⟨⟨⟨hname, hnumeric⟩, hop⟩, hvalue⟩ := h
      obtain ⟨t, text, rfl, ht⟩ := isName_iff.1 hname
      rcases ih hvalue with ⟨k, hk, hdatum⟩ | heffect
      · rw [hdatum.verdict hk, TokenKind.isNumeric_ofAtom] at hnumeric
        exact Or.inr (.assignment ht (Token.operatorClass?_eq_assignment.1 hop) hdatum hnumeric)
      · rw [heffect.verdict] at hnumeric
        cases hnumeric
  | conditional condition op effect ihc ihe =>
      simp only [Expr.verdict, Verdict.conditional, Bool.and_eq_true, Token.isOperator_iff] at h
      obtain ⟨⟨⟨⟨hop, hcondition⟩, heffect⟩, hbool⟩, hitem⟩ := h
      rcases ihe heffect with ⟨k, hk, hdatum⟩ | heffect
      · rw [hdatum.verdict hk, TokenKind.has_itemEffect_ofAtom] at hitem
        cases hitem
      · rcases ihc hcondition with ⟨k, hk, hdatum⟩ | hcondition
        · rw [hdatum.verdict hk, TokenKind.has_bool_ofAtom] at hbool
          exact Or.inr (.conditional hdatum hbool hop heffect)
        · rw [hcondition.verdict] at hbool
          cases hbool
  | chaining first op second ihf ihs =>
      simp only [Expr.verdict, Verdict.chaining, Bool.and_eq_true, Token.isOperator_iff] at h
      obtain ⟨⟨⟨⟨hop, hfirst⟩, hsecond⟩, hitemf⟩, hitems⟩ := h
      rcases ihf hfirst with ⟨k, hk, hdatum⟩ | hfirst
      · rw [hdatum.verdict hk, TokenKind.has_itemEffect_ofAtom] at hitemf
        cases hitemf
      · rcases ihs hsecond with ⟨k, hk, hdatum⟩ | hsecond
        · rw [hdatum.verdict hk, TokenKind.has_itemEffect_ofAtom] at hitems
          cases hitems
        · exact Or.inr (.chaining hfirst hop hsecond)

/-- The item effects are the legal effects. -/
theorem isItemEffect_iff {e : Expr} : e.isItemEffect = true ↔ Effect e := by
  rw [isItemEffect, check_eq_verdict, Verdict.isItemEffect, Bool.and_eq_true]
  constructor
  · rintro ⟨hvalid, hitem⟩
    rcases datum_or_effect_of_valid hvalid with ⟨k, hk, hdatum⟩ | heffect
    · rw [hdatum.verdict hk, TokenKind.has_itemEffect_ofAtom] at hitem
      cases hitem
    · exact heffect
  · intro h
    rw [h.verdict]
    exact ⟨rfl, rfl⟩

/-- A tree is legal exactly if it is a datum or an effect. -/
lemma validate_iff_datum_or_effect {e : Expr} :
    e.validate = true ↔ (∃ k, k.isAtom = true ∧ Datum k e) ∨ Effect e := by
  rw [validate_eq]
  constructor
  · exact datum_or_effect_of_valid
  · rintro (⟨k, hk, hdatum⟩ | heffect)
    · rw [hdatum.verdict hk]
    · rw [heffect.verdict]

lemma Effect.evaluate_eq {e : Expr} (h : Effect e) :
    e.evaluate = TypeSet.singleton .itemEffect := by
  rw [Expr.evaluate_eq, h.verdict]

/-- A datum can be read as its atom can. -/
lemma Datum.evaluate_eq {k : TokenKind} {e : Expr} (h : Datum k e) (hk : k.isAtom = true) :
    e.evaluate = TypeSet.ofAtom k := by
  rw [Expr.evaluate_eq, h.verdict hk]

/-- **The verdict decides the two families.**  The legal trees are the data and the effects, and the
item effects are the effects; an effect can be read as an action only, and a datum as its atom. -/
theorem validate_and_evaluate (e : Expr) :
    (e.validate = true ↔ (∃ k, k.isAtom = true ∧ Datum k e) ∨ Effect e) ∧
      (e.isItemEffect = true ↔ Effect e) ∧
      (Effect e → e.evaluate = TypeSet.singleton .itemEffect) ∧
      (∀ text, Datum (.name text) e → e.evaluate = TypeSet.ofList [.termLike, .bool]) ∧
      (∀ value, Datum (.number value) e → e.evaluate = TypeSet.singleton .int) ∧
      ∀ body, Datum (.logic body) e → e.evaluate = TypeSet.singleton .bool := by
  refine ⟨validate_iff_datum_or_effect, isItemEffect_iff, Effect.evaluate_eq, ?_, ?_, ?_⟩
  · exact fun text h => h.evaluate_eq rfl
  · exact fun value h => h.evaluate_eq rfl
  · exact fun body h => h.evaluate_eq rfl

/-- A chain may stand below `=>` without parentheses, though no text is parsed into such a tree; a
number under parentheses cannot be the condition. -/
theorem validate_and_evaluate_built :
    ∃ chain value guarded,
      chain = chaining (increment (atom (.bare (.name "A"))) (.bare (.operator "++")))
        (.bare (.operator ">>"))
        (assignment (atom (.bare (.name "B"))) (.bare (.operator "-=")) value) ∧
      value = grouping (.bare (.paren .left)) (atom (.bare (.number 3))) (.bare (.paren .right)) ∧
      guarded = conditional (atom (.bare (.logic "x"))) (.bare (.operator "=>")) chain ∧
      value.evaluate = TypeSet.singleton .int ∧
      guarded.evaluate = TypeSet.singleton .itemEffect ∧
      (conditional value (.bare (.operator "=>")) chain).validate = false := by
  refine ⟨_, _, _, rfl, rfl, rfl, ?_, ?_, ?_⟩
  · exact (validate_and_evaluate _).2.2.2.2.1 3 (.grouping rfl (.atom rfl) rfl)
  · refine (validate_and_evaluate _).2.2.1 (.conditional (.atom rfl) rfl rfl (.chaining ?_ rfl ?_))
    · exact .increment rfl (.inl rfl)
    · exact .assignment rfl (.inr rfl) (.grouping rfl (.atom rfl) rfl) rfl
  · rw [validate_eq]
    rfl

end Expr

end EffectLang
