import EffectLang.Proofs.Expr.Effect
import Mathlib.Logic.Relation

/-!
# Grouping that does not matter

Two ways to write the same effect differ only in how it is grouped: with chains bracketed to the
left, to the right or in the middle, and with parentheses that need not be there.  Neither can be
told from the verdict.

**Brackets.**  `Bracketing x xs e` says that `e` brackets the sequence of `x` and the operators and
trees in `xs`.  The verdict on a chain is associative (`Verdict.chaining_assoc`), whatever the
operators and however wrong the trees are, so each bracketing is judged like the one to the right.
`readings_eq_of_bracketing` is the main statement.

**Parentheses.**  A node looks at a part only through the verdict on it, except that the target of
an increment or an assignment has to be a bare name.  The part and all that stands around it are a
tree and a list of frames (`within`); parts that are judged alike can be exchanged inside
any frames (`verdict_within_congr`).  A group is judged like its inside.  `validate_evaluate_of_wraps` is the
main statement.
-/

namespace EffectLang

namespace Expr

/-! ## Brackets -/

/-- The tree is made of `x` and the trees of `xs`, in this order and each behind its operator, by
nothing but chaining. -/
inductive Bracketing : Expr → List (Token × Expr) → Expr → Prop
  | single (x : Expr) : Bracketing x [] x
  | chaining {x y first second : Expr} {xs ys : List (Token × Expr)} {op : Token}
      (hf : Bracketing x xs first) (hs : Bracketing y ys second) :
      Bracketing x (xs ++ (op, y) :: ys) (.chaining first op second)

/-- The bracketing to the right. -/
def chainRight : Expr → List (Token × Expr) → Expr
  | x, [] => x
  | x, (op, y) :: ys => chaining x op (chainRight y ys)

end Expr

namespace TypeSet

@[simp] lemma has_itemEffect_effectIf (b : Bool) : (effectIf b).has .itemEffect = b := by
  cases b <;> rfl

end TypeSet

/-- How a chain is bracketed does not matter for the verdict on it. -/
lemma Verdict.chaining_assoc (u v w : Verdict) (op op' : Token) :
    (u.chaining op v).chaining op' w = u.chaining op (v.chaining op' w) := by
  simp only [Verdict.chaining, TypeSet.has_itemEffect_effectIf, Verdict.mk.injEq, Bool.and_assoc,
    and_true]
  ac_rfl

namespace Expr

/-- A chain may be cut at any of its operators: its verdict is that of chaining the two parts. -/
lemma verdict_chainRight_append (x y : Expr) (xs ys : List (Token × Expr)) (op : Token) :
    (chainRight x (xs ++ (op, y) :: ys)).verdict =
      (chainRight x xs).verdict.chaining op (chainRight y ys).verdict := by
  induction xs generalizing x with
  | nil => rfl
  | cons p xs ih =>
      obtain ⟨op', z⟩ := p
      calc (chainRight x ((op', z) :: xs ++ (op, y) :: ys)).verdict
          = x.verdict.chaining op' (chainRight z (xs ++ (op, y) :: ys)).verdict := rfl
        _ = x.verdict.chaining op'
              ((chainRight z xs).verdict.chaining op (chainRight y ys).verdict) := by rw [ih]
        _ = (x.verdict.chaining op' (chainRight z xs).verdict).chaining op
              (chainRight y ys).verdict := (Verdict.chaining_assoc _ _ _ _ _).symm

variable {x e : Expr} {xs : List (Token × Expr)}

/-- How a sequence is bracketed makes no difference to its verdict. -/
lemma Bracketing.verdict (h : Bracketing x xs e) : e.verdict = (chainRight x xs).verdict := by
  induction h with
  | single x => rfl
  | chaining _ _ ihf ihs => rw [Expr.verdict, ihf, ihs, verdict_chainRight_append]

/-- All bracketings are written with the same tokens. -/
lemma Bracketing.tokens (h : Bracketing x xs e) :
    e.tokens = x.tokens ++ xs.flatMap fun p => p.1 :: p.2.tokens := by
  induction h with
  | single x => simp
  | chaining _ _ ihf ihs => simp [tokens_chaining, ihf, ihs]

/-- **How a chain is bracketed cannot be observed.** -/
theorem readings_eq_of_bracketing {a b : Expr} (ha : Bracketing x xs a) (hb : Bracketing x xs b) :
    a.validate = b.validate ∧ a.evaluate = b.evaluate ∧ a.isItemEffect = b.isItemEffect ∧
      a.print = b.print ∧ a.tokens = b.tokens ∧ a.names = b.names ∧ a.span = b.span := by
  have hcheck : a.check = b.check := by
    rw [check_eq_verdict, check_eq_verdict, ha.verdict, hb.verdict]
  have htokens : a.tokens = b.tokens := ha.tokens.trans hb.tokens.symm
  refine ⟨?_, ?_, ?_, ?_, htokens, ?_, ?_⟩
  · rw [validate, hcheck, validate]
  · rw [evaluate, hcheck, evaluate]
  · rw [isItemEffect, hcheck, isItemEffect]
  · rw [print, htokens, print]
  · rw [names, htokens, names]
  · rw [span, htokens, span]

/-- `A++ >> B => C--`, where `B` is no effect and `=>` chains nothing: no better with the other
brackets. -/
theorem readings_eq_of_bracketing_illegal :
    ∃ x y z right left, x = increment (atom (.bare (.name "A"))) (.bare (.operator "++")) ∧
      y = atom (.bare (.name "B")) ∧
      z = increment (atom (.bare (.name "C"))) (.bare (.operator "--")) ∧
      right = chaining x (.bare (.operator ">>")) (chaining y (.bare (.operator "=>")) z) ∧
      left = chaining (chaining x (.bare (.operator ">>")) y) (.bare (.operator "=>")) z ∧
      Bracketing x [(.bare (.operator ">>"), y), (.bare (.operator "=>"), z)] right ∧
      Bracketing x [(.bare (.operator ">>"), y), (.bare (.operator "=>"), z)] left ∧
      right.validate = left.validate ∧ right.evaluate = left.evaluate := by
  have hright (x y z : Expr) (op op' : Token) :
      Bracketing x [(op, y), (op', z)] (chaining x op (chaining y op' z)) :=
    .chaining (.single x) (.chaining (.single y) (.single z))
  have hleft (x y z : Expr) (op op' : Token) :
      Bracketing x [(op, y), (op', z)] (chaining (chaining x op y) op' z) :=
    .chaining (.chaining (.single x) (.single y)) (.single z)
  refine ⟨_, _, _, _, _, rfl, rfl, rfl, rfl, rfl, hright _ _ _ _ _, hleft _ _ _ _ _, ?_, ?_⟩
  · exact (readings_eq_of_bracketing (hright _ _ _ _ _) (hleft _ _ _ _ _)).1
  · exact (readings_eq_of_bracketing (hright _ _ _ _ _) (hleft _ _ _ _ _)).2.1

/-! ## Parentheses -/

/-- A node without one of its parts, for which the frame is named. -/
inductive Frame where
  | inner (opening closing : Token)
  | operand (operator : Token)
  | target (operator : Token) (right : Expr)
  | value (left : Expr) (operator : Token)
  | condition (operator : Token) (right : Expr)
  | effect (left : Expr) (operator : Token)
  | first (operator : Token) (right : Expr)
  | second (left : Expr) (operator : Token)

namespace Frame

/-- Puts an expression in the place of a frame. -/
def fill : Frame → Expr → Expr
  | inner opening closing, e => grouping opening e closing
  | operand operator, e => increment e operator
  | target operator right, e => assignment e operator right
  | value left operator, e => assignment left operator e
  | condition operator right, e => conditional e operator right
  | effect left operator, e => conditional left operator e
  | first operator right, e => chaining e operator right
  | second left operator, e => chaining left operator e

/-- The part is what an increment or an assignment changes. -/
def isTarget : Frame → Bool
  | operand _ => true
  | target _ _ => true
  | inner _ _ => false
  | value _ _ => false
  | condition _ _ => false
  | effect _ _ => false
  | first _ _ => false
  | second _ _ => false

end Frame

/-- A tree with frames around it, the innermost first. -/
def within : Expr → List Frame → Expr
  | e, [] => e
  | e, frame :: frames => (frame.fill e).within frames

lemma within_append_singleton (e : Expr) (frames : List Frame) (frame : Frame) :
    e.within (frames ++ [frame]) = frame.fill (e.within frames) := by
  induction frames generalizing e with
  | nil => rfl
  | cons f frames ih => exact ih (f.fill e)

/-- A part of what is in a frame is a part of the whole. -/
lemma exists_within_fill {n e : Expr} (frame : Frame) (h : ∃ frames, n.within frames = e) :
    ∃ frames, n.within frames = frame.fill e := by
  obtain ⟨frames, rfl⟩ := h
  exact ⟨frames ++ [frame], within_append_singleton n frames frame⟩

/-- Every node stands in some frames. -/
lemma exists_within_of_mem_nodes {n e : Expr} (h : n ∈ e.nodes) :
    ∃ frames, n.within frames = e := by
  induction e with
  | atom t =>
      rw [nodes_atom, List.mem_singleton] at h
      exact ⟨[], h⟩
  | grouping opening inner closing ih =>
      rw [nodes_grouping, List.mem_cons] at h
      rcases h with h | h
      · exact ⟨[], h⟩
      · exact exists_within_fill (.inner opening closing) (ih h)
  | increment operand op ih =>
      rw [nodes_increment, List.mem_cons] at h
      rcases h with h | h
      · exact ⟨[], h⟩
      · exact exists_within_fill (.operand op) (ih h)
  | assignment target op value iht ihv =>
      rw [nodes_assignment, List.mem_cons, List.mem_append] at h
      rcases h with h | h | h
      · exact ⟨[], h⟩
      · exact exists_within_fill (.target op value) (iht h)
      · exact exists_within_fill (.value target op) (ihv h)
  | conditional condition op effect ihc ihe =>
      rw [nodes_conditional, List.mem_cons, List.mem_append] at h
      rcases h with h | h | h
      · exact ⟨[], h⟩
      · exact exists_within_fill (.condition op effect) (ihc h)
      · exact exists_within_fill (.effect condition op) (ihe h)
  | chaining first op second ihf ihs =>
      rw [nodes_chaining, List.mem_cons, List.mem_append] at h
      rcases h with h | h | h
      · exact ⟨[], h⟩
      · exact exists_within_fill (.first op second) (ihf h)
      · exact exists_within_fill (.second first op) (ihs h)

/-- One more pair of parentheses, at any place but around a bare name that is the target of an
increment or an assignment. -/
inductive Wraps : Expr → Expr → Prop
  | wrap {frames : List Frame} {n : Expr} {opening closing : Token}
      (ho : opening.kind = .paren .left) (hc : closing.kind = .paren .right)
      (hn : ∀ frame ∈ frames.head?, frame.isTarget = true → n.isName = false) :
      Wraps (n.within frames) ((grouping opening n closing).within frames)

lemma isName_fill (frame : Frame) (e : Expr) : (frame.fill e).isName = false := by
  cases frame <;> rfl

/-- A node looks at a part only through its verdict, and a target has to be a bare name besides. -/
lemma verdict_fill_congr {frame : Frame} {a b : Expr} (h : a.verdict = b.verdict)
    (hname : frame.isTarget = true → a.isName = b.isName) :
    (frame.fill a).verdict = (frame.fill b).verdict := by
  cases frame with
  | operand op => simp only [Frame.fill, verdict, hname rfl]
  | target op right => simp only [Frame.fill, verdict, hname rfl]
  | _ => simp only [Frame.fill, verdict, h]

/-- Parts that are judged alike can be exchanged in any frames. -/
lemma verdict_within_congr {frames : List Frame} {a b : Expr} (h : a.verdict = b.verdict)
    (hname : ∀ frame ∈ frames.head?, frame.isTarget = true → a.isName = b.isName) :
    (a.within frames).verdict = (b.within frames).verdict := by
  induction frames generalizing a b with
  | nil => exact h
  | cons frame frames ih =>
      -- Only the innermost frame can see the part itself; the next ones see a node around it.
      refine ih (verdict_fill_congr h (hname frame rfl)) fun _ _ _ => ?_
      rw [isName_fill, isName_fill]

/-- Groups make no difference to a verdict. -/
lemma Wraps.verdict_eq {e e' : Expr} (h : Wraps e e') : e'.verdict = e.verdict := by
  cases h with
  | wrap ho hc hn =>
      refine verdict_within_congr (verdict_grouping ho hc _) fun frame hframe htarget => ?_
      rw [hn frame hframe htarget, isName]

/-- **Parentheses that need not be there do not matter.**  However many pairs are put around parts
of a tree, but for the bare names that are targets, the tree is as legal as before and can be read
as the same types.  A part is any node of the tree, in the frames around it. -/
theorem validate_evaluate_of_wraps (e : Expr) :
    (∀ n ∈ e.nodes, ∃ frames, n.within frames = e) ∧
      ∀ e', Relation.ReflTransGen Wraps e e' →
        e'.validate = e.validate ∧ e'.evaluate = e.evaluate := by
  refine ⟨fun n hn => exists_within_of_mem_nodes hn, fun e' h => ?_⟩
  have hverdict : e'.verdict = e.verdict := by
    induction h with
    | refl => rfl
    | tail _ hstep ih => rw [hstep.verdict_eq, ih]
  rw [validate_eq, validate_eq, evaluate_eq, evaluate_eq, hverdict]
  exact ⟨rfl, rfl⟩

/-- `(C) => ((A += 1))`: the condition in parentheses, and the effect in two pairs of them. -/
theorem validate_evaluate_of_wraps_guarded :
    ∃ effect opening closing guard e e',
      effect = assignment (atom (.bare (.name "A"))) (.bare (.operator "+="))
        (atom (.bare (.number 1))) ∧
      opening = .bare (.paren .left) ∧ closing = .bare (.paren .right) ∧
      guard = .bare (.operator "=>") ∧ e = conditional (atom (.bare (.name "C"))) guard effect ∧
      e' = conditional (grouping opening (atom (.bare (.name "C"))) closing) guard
        (grouping opening (grouping opening effect closing) closing) ∧
      Relation.ReflTransGen Wraps e e' ∧ e'.validate = e.validate ∧ e'.evaluate = e.evaluate := by
  have hcondition (effect : Expr) (guard : Token) :
      Wraps (conditional (atom (.bare (.name "C"))) guard effect)
        (conditional (grouping (.bare (.paren .left)) (atom (.bare (.name "C")))
          (.bare (.paren .right))) guard effect) :=
    @Wraps.wrap [.condition guard effect] _ _ _ rfl rfl (by simp [Frame.isTarget])
  have heffect (condition effect : Expr) (guard : Token) :
      Wraps (conditional condition guard effect)
        (conditional condition guard
          (grouping (.bare (.paren .left)) effect (.bare (.paren .right)))) :=
    @Wraps.wrap [.effect condition guard] _ _ _ rfl rfl (by simp [Frame.isTarget])
  have hwraps := ((Relation.ReflTransGen.single (hcondition (assignment (atom (.bare (.name "A")))
    (.bare (.operator "+=")) (atom (.bare (.number 1)))) (.bare (.operator "=>")))).tail
      (heffect _ _ _)).tail (heffect _ _ _)
  exact ⟨_, _, _, _, _, _, rfl, rfl, rfl, rfl, rfl, rfl, hwraps,
    (validate_evaluate_of_wraps _).2 _ hwraps⟩

-- A bare name is different: `(A)++` is not legal, though `A++` is.
example : (increment (grouping (.bare (.paren .left)) (atom (.bare (.name "A")))
    (.bare (.paren .right))) (.bare (.operator "++"))).validate = false := by cbv

end Expr

end EffectLang
