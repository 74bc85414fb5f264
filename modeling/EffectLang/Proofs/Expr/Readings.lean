import EffectLang.Expr.Verdict
import Mathlib.Tactic.Lemma

/-!
# Actions and data are told apart

A tree is given one of five sets of types, however wrong it is and whatever tokens stand in it
(`verdict_types_mem_readings`), and each of the five is given to some tree
(`exists_evaluate_eq_iff`).  In one of them there is an action, and nothing else.

So a tree is an action or a datum, never both.  `ServesAsEffect` and `ServesAsDatum` list the
places in legal trees where the one or the other is wanted.  The main statement is
`evaluate_readings`.
-/

namespace EffectLang

namespace TypeSet

/-- The sets of types that trees are given. -/
def readings : List TypeSet :=
  [empty, ofList [.termLike, .bool], singleton .bool, singleton .int, singleton .itemEffect]

/-- An atom has one of the readings. -/
lemma ofAtom_mem_readings (k : TokenKind) : ofAtom k ∈ readings := by
  cases k <;> simp [ofAtom, readings]

/-- An action has one of the readings. -/
lemma effectIf_mem_readings (b : Bool) : effectIf b ∈ readings := by
  cases b <;> decide

/-- What can be an action can be nothing else. -/
lemma eq_singleton_of_mem_readings :
    ∀ s ∈ readings, s.has .itemEffect = true → s = singleton .itemEffect := by
  decide

end TypeSet

namespace Expr

/-- An invariant of judging, legal or not: a group and a conditional hand on a set of types, and
every other node makes one. -/
theorem verdict_types_mem_readings (e : Expr) : e.verdict.types ∈ TypeSet.readings := by
  induction e with
  | atom t => exact TypeSet.ofAtom_mem_readings t.kind
  | grouping opening inner closing ih => exact ih
  | increment operand op _ => exact TypeSet.effectIf_mem_readings _
  | assignment target op value _ _ => exact TypeSet.effectIf_mem_readings _
  | conditional condition op effect _ ih =>
      simp only [verdict, Verdict.conditional]
      split
      · exact ih
      · exact List.mem_cons_self
  | chaining first op second _ _ => exact TypeSet.effectIf_mem_readings _

/-- The sets of types that occur are these five. -/
theorem exists_evaluate_eq_iff (s : TypeSet) : (∃ e, evaluate e = s) ↔ s ∈ TypeSet.readings := by
  constructor
  · rintro ⟨e, rfl⟩
    rw [evaluate_eq]
    exact verdict_types_mem_readings e
  · intro h
    simp only [TypeSet.readings, List.mem_cons, List.not_mem_nil, or_false] at h
    rcases h with rfl | rfl | rfl | rfl | rfl
    · exact ⟨atom (.bare (.paren .left)), evaluate_eq _⟩
    · exact ⟨atom (.bare (.name "A")), evaluate_eq _⟩
    · exact ⟨atom (.bare (.logic "A")), evaluate_eq _⟩
    · exact ⟨atom (.bare (.number 1)), evaluate_eq _⟩
    · exact ⟨increment (atom (.bare (.name "A"))) (.bare (.operator "++")), evaluate_eq _⟩

/-! ## Where the types are wanted -/

section Wanted

variable {first second condition effect target value : Expr} {op : Token}

lemma has_of_validate_conditional (h : (conditional condition op effect).validate = true) :
    condition.evaluate.has .bool = true ∧ effect.evaluate.has .itemEffect = true := by
  simp only [validate_eq, verdict, Verdict.conditional, Bool.and_eq_true] at h
  rw [evaluate_eq, evaluate_eq]
  exact ⟨h.1.2, h.2⟩

lemma has_of_validate_chaining (h : (chaining first op second).validate = true) :
    first.evaluate.has .itemEffect = true ∧ second.evaluate.has .itemEffect = true := by
  simp only [validate_eq, verdict, Verdict.chaining, Bool.and_eq_true] at h
  rw [evaluate_eq, evaluate_eq]
  exact ⟨h.1.2, h.2⟩

lemma isNumeric_of_validate_assignment (h : (assignment target op value).validate = true) :
    value.evaluate.isNumeric = true := by
  simp only [validate_eq, verdict, Verdict.assignment, Bool.and_eq_true] at h
  rw [evaluate_eq]
  exact h.1.1.2

end Wanted

variable {e : Expr}

/-- The tree is a legal action, or stands in a legal tree where an action is wanted. -/
inductive ServesAsEffect (e : Expr) : Prop
  | whole (h : e.isItemEffect = true)
  | guarded {condition : Expr} {op : Token} (h : (conditional condition op e).validate = true)
  | first {op : Token} {second : Expr} (h : (chaining e op second).validate = true)
  | second {first : Expr} {op : Token} (h : (chaining first op e).validate = true)

/-- The tree stands in a legal tree where a condition or a value is wanted. -/
inductive ServesAsDatum (e : Expr) : Prop
  | condition {op : Token} {effect : Expr} (h : (conditional e op effect).validate = true)
  | value {target : Expr} {op : Token} (h : (assignment target op e).validate = true)

lemma ServesAsEffect.has_itemEffect (h : ServesAsEffect e) :
    e.evaluate.has .itemEffect = true := by
  cases h with
  | whole h =>
      rw [isItemEffect_eq, Bool.and_eq_true] at h
      exact h.2
  | guarded h => exact (has_of_validate_conditional h).2
  | first h => exact (has_of_validate_chaining h).1
  | second h => exact (has_of_validate_chaining h).2

lemma ServesAsDatum.has_bool_or_isNumeric (h : ServesAsDatum e) :
    e.evaluate.has .bool = true ∨ e.evaluate.isNumeric = true := by
  cases h with
  | condition h => exact Or.inl (has_of_validate_conditional h).1
  | value h => exact Or.inr (isNumeric_of_validate_assignment h)

/-- A tree that can be read as an action can be read as nothing else. -/
lemma evaluate_eq_singleton (h : e.evaluate.has .itemEffect = true) :
    e.evaluate = TypeSet.singleton .itemEffect :=
  TypeSet.eq_singleton_of_mem_readings _ ((exists_evaluate_eq_iff _).1 ⟨e, rfl⟩) h

/-- An action can stand neither for a condition nor for a value, whatever is around it. -/
lemma no_datum_of_has_itemEffect (h : e.evaluate.has .itemEffect = true) :
    e.evaluate.has .bool = false ∧ e.evaluate.isNumeric = false := by
  rw [evaluate_eq_singleton h]
  exact ⟨rfl, rfl⟩

/-- No place takes an action as well as a datum. -/
lemma not_servesAsDatum_of_servesAsEffect (h : ServesAsEffect e) : ¬ ServesAsDatum e := by
  intro hdatum
  obtain ⟨hbool, hnumeric⟩ := no_datum_of_has_itemEffect h.has_itemEffect
  rcases hdatum.has_bool_or_isNumeric with h' | h'
  · exact Bool.false_ne_true (hbool.symm.trans h')
  · exact Bool.false_ne_true (hnumeric.symm.trans h')

/-- **An action is never read as a datum.**  Five sets of types occur, in legal trees and in others;
an action stands alone in its set, so that what serves as an effect is no condition and no
value. -/
theorem evaluate_readings (e : Expr) :
    (e.evaluate = TypeSet.empty ∨ e.evaluate = TypeSet.ofList [.termLike, .bool] ∨
        e.evaluate = TypeSet.singleton .bool ∨ e.evaluate = TypeSet.singleton .int ∨
        e.evaluate = TypeSet.singleton .itemEffect) ∧
      (e.evaluate.has .itemEffect = true → e.evaluate = TypeSet.singleton .itemEffect ∧
        e.evaluate.has .bool = false ∧ e.evaluate.isNumeric = false) ∧
      ¬ (ServesAsEffect e ∧ ServesAsDatum e) := by
  refine ⟨?_, fun h => ⟨evaluate_eq_singleton h, no_datum_of_has_itemEffect h⟩,
    fun h => not_servesAsDatum_of_servesAsEffect h.1 h.2⟩
  have h := (exists_evaluate_eq_iff e.evaluate).1 ⟨e, rfl⟩
  simpa [TypeSet.readings] using h

/-- `A ( B ++ 1` between `--` and `C`, read as a conditional assignment in a group: no node is legal,
and the whole is an action all the same, and nothing else.  In `D => E++` the action serves as an
effect, and so in no legal tree it serves as a condition or as a value. -/
theorem evaluate_readings_illegal :
    (∃ inner e, inner = conditional (atom (.bare (.name "A"))) (.bare (.paren .left))
        (assignment (atom (.bare (.name "B"))) (.bare (.operator "++"))
          (atom (.bare (.number 1)))) ∧
      e = grouping (.bare (.operator "--")) inner (.bare (.name "C")) ∧
      e.tokens.map Token.kind = [.operator "--", .name "A", .paren .left, .name "B",
        .operator "++", .number 1, .name "C"] ∧
      inner.validate = false ∧ e.validate = false ∧
      e.evaluate.has .itemEffect = true ∧ e.evaluate.toList = [.itemEffect] ∧
      e.evaluate.has .bool = false ∧ e.evaluate.isNumeric = false) ∧
    ∃ e, e = increment (atom (.bare (.name "E"))) (.bare (.operator "++")) ∧
      (conditional (atom (.bare (.name "D"))) (.bare (.operator "=>")) e).validate = true ∧
      ServesAsEffect e ∧ ¬ ServesAsDatum e := by
  constructor
  · have hitem : (grouping (.bare (.operator "--"))
        (conditional (atom (.bare (.name "A"))) (.bare (.paren .left))
          (assignment (atom (.bare (.name "B"))) (.bare (.operator "++"))
            (atom (.bare (.number 1)))))
        (.bare (.name "C"))).evaluate.has .itemEffect = true := by
      rw [evaluate_eq]
      rfl
    obtain ⟨htypes, hbool, hnumeric⟩ := (evaluate_readings _).2.1 hitem
    refine ⟨_, _, rfl, rfl, by cbv, ?_, ?_, hitem, ?_, hbool, hnumeric⟩
    · rw [validate_eq]
      rfl
    · rw [validate_eq]
      rfl
    · rw [htypes]
      rfl
  · have hvalid : (conditional (atom (.bare (.name "D"))) (.bare (.operator "=>"))
        (increment (atom (.bare (.name "E"))) (.bare (.operator "++")))).validate = true := by
      rw [validate_eq]
      rfl
    have heffect := ServesAsEffect.guarded hvalid
    exact ⟨_, rfl, hvalid, heffect, fun hdatum => (evaluate_readings _).2.2 ⟨heffect, hdatum⟩⟩

end Expr

end EffectLang
