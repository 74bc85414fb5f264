import EffectLang.Grammar.Descent
import EffectLang.Proofs.Grammar.Refusal

/-!
# The automaton follows the descent

The parser that goes down through the levels of the grammar and the automaton with a stack read the
same effects and report the same errors.  The main statement is `descent_parse_eq`, for every list
of tokens.

**What a level does.**  Where the automaton wants an operand, a level reads one or fails.  If it
fails, then so does the automaton, with the error that has left all pending constructs on the stack
(`ParseError.climb`): on its way up through the levels the error is offered the same contexts.  If
it reads an expression, then the automaton comes to hold it (`Follows`).

**What is held.**  The automaton puts off to complete what could still go on to the right.  So behind
a conditional or a chain it holds the last part of it, with the other parts on top of the stack, and
completing these gives the expression (`ConditionalHeld`, `ChainHeld`).

Each level is followed if the tighter ones are followed from the same place and the same one is from
later places (`follows_chain` and its like), and the induction is on the number of tokens that are
still to come (`follows`).
-/

namespace EffectLang.Grammar

open Pending State

/-! ## Cursors -/

namespace Cursor

variable {c : Cursor} {t : Token} {cl : OperatorClass}

lemma operatorClass?_of_current? (ht : c.current? = some t) :
    c.operatorClass? = t.operatorClass? := by
  rw [operatorClass?, ht, Option.bind_some]

lemma operatorClass?_eq_some_iff : c.operatorClass? = some cl ↔
    ∃ t, c.current? = some t ∧ t.operatorClass? = some cl := by
  rw [operatorClass?, Option.bind_eq_some_iff]

lemma isAtClass_iff : c.isAtClass cl = true ↔
    ∃ t, c.current? = some t ∧ t.operatorClass? = some cl := by
  rw [isAtClass, beq_iff_eq, operatorClass?_eq_some_iff]

lemma isAtParen_of_current? {side : Paren} (ht : c.current? = some t) :
    c.isAtParen side = t.isParen side := by
  rw [isAtParen, ht, Option.bind_some, Token.isParen]

/-- The tokens from a cursor on begin with the current one. -/
lemma drop_of_current? (ht : c.current? = some t) :
    c.tokens.drop c.position = t :: c.tokens.drop (c.position + 1) := by
  obtain ⟨hlt, hget⟩ := List.getElem?_eq_some_iff.1 ht
  rw [List.drop_eq_getElem_cons hlt, hget]

end Cursor

/-- To pass a token gives this token. -/
lemma Descent.bump_of_current? {c : Cursor} {t : Token} (ht : c.current? = some t) :
    bump c = .ok ⟨t, c.next, Cursor.remaining_next_lt ht⟩ := by
  unfold bump
  split
  · rename_i t' ht'
    obtain rfl : t' = t := Option.some.inj (ht'.symm.trans ht)
    simp only [Cursor.advance_of_current? ht]
  · rename_i hnone
    rw [ht] at hnone
    cases hnone

/-! ## The automaton from a cursor on -/

/-- What the automaton makes of the tokens from a cursor on. -/
def State.outcome (s : State) (c : Cursor) : Except ParseError Expr :=
  (s.run c.position (c.tokens.drop c.position)).mapError fun found =>
    found.1.error ⟨c.tokens, found.2⟩

section Outcome

variable {s next : State} {c : Cursor} {t : Token} {fault : Fault}

/-- A token that is taken leaves the outcome to the rest. -/
lemma outcome_of_step (ht : c.current? = some t) (h : s.step t = .ok next) :
    s.outcome c = next.outcome c.next := by
  rw [outcome, Cursor.drop_of_current? ht, State.run, h]
  rfl

/-- A token that is refused decides the outcome. -/
lemma outcome_of_fault (ht : c.current? = some t) (h : s.step t = .error fault) :
    s.outcome c = .error (fault.error c) := by
  rw [outcome, Cursor.drop_of_current? ht, State.run, h]
  rfl

/-- At the end the outcome is what the state can finish as. -/
lemma outcome_of_end (hc : c.current? = none) :
    s.outcome c = s.finish.mapError (Fault.error c) := by
  have hdrop : c.tokens.drop c.position = [] :=
    List.drop_eq_nil_of_le (List.getElem?_eq_none_iff.1 hc)
  rw [outcome, hdrop, State.run]
  cases s.finish <;> rfl

end Outcome

/-! ## What a level comes to -/

/-- A place for an assignment: what is received there is held as a primary. -/
def TakesAssignment (stack : List Pending) : Prop :=
  ∀ e, receive e stack = holding true e stack

/-- A place for a chain: there is no conditional on top that would go on with what is held. -/
def TakesChain (stack : List Pending) : Prop :=
  TakesAssignment stack ∧ ∀ e, closeGuards e stack = (e, stack)

/-- What comes next is not attached to a primary that is held. -/
def Settled (primary : Bool) (c : Cursor) : Prop :=
  primary = true → c.operatorClass? ≠ some .postfixed ∧ c.operatorClass? ≠ some .assignment

/-- The assignment `e` is held in front of `next`. -/
def AssignmentHeld (stack : List Pending) (e : Expr) (next : Cursor) (s : State) : Prop :=
  ∃ primary, s = holding primary e stack ∧ Settled primary next

/-- The conditional `e` is held in front of `next`, its last part apart from the others. -/
def ConditionalHeld (stack : List Pending) (e : Expr) (next : Cursor) (s : State) : Prop :=
  next.isAtClass .conditional = false ∧
    ∃ primary inner outer, s = holding primary inner outer ∧ Settled primary next ∧
      closeGuards inner outer = closeGuards e stack

/-- The chain `e` is held in front of `next`, its last part apart from the others. -/
def ChainHeld (stack : List Pending) (e : Expr) (next : Cursor) (s : State) : Prop :=
  next.isAtClass .conditional = false ∧ next.isAtClass .chaining = false ∧
    ∃ primary inner outer, s = holding primary inner outer ∧ Settled primary next ∧
      closeAll inner outer = closeAll e stack

/-- Where an operand is wanted, the automaton fails with the error of a level, or comes to hold what
the level reads. -/
def Follows (c : Cursor) (stack : List Pending) (held : Expr → Cursor → State → Prop) :
    Except ParseError (Parsed Expr c) → Prop
  | .error e => (wanting stack).outcome c = .error (e.climb stack)
  | .ok p => ∃ s, held p.value p.next s ∧ (wanting stack).outcome c = s.outcome p.next

section Levels

variable {c : Cursor} {stack : List Pending}

/-- A level that begins with a tighter one goes on where the automaton holds what that has read. -/
lemma Follows.bind {held held' : Expr → Cursor → State → Prop}
    {result : Except ParseError (Parsed Expr c)}
    {rest : Parsed Expr c → Except ParseError (Parsed Expr c)} (h : Follows c stack held result)
    (hrest : ∀ p s, held p.value p.next s → (wanting stack).outcome c = s.outcome p.next →
      Follows c stack held' (rest p)) :
    Follows c stack held' (result >>= rest) := by
  cases result with
  | error e => exact h
  | ok p =>
      obtain ⟨s, hs, houtcome⟩ := h
      exact hrest p s hs houtcome

/-- Behind an operator a level reads its right operand, with the construct that waits for it on the
stack, and offers the context of this construct to an error. -/
lemma Follows.behind {d : Cursor} {p : Pending} {held held' : Expr → Cursor → State → Prop}
    {result : Except ParseError (Parsed Expr d)} {whole : Parsed Expr d → Parsed Expr c}
    (houtcome : (wanting stack).outcome c = (wanting (p :: stack)).outcome d)
    (hright : Follows d (p :: stack) held' result)
    (hheld : ∀ q s, held' q.value q.next s → held (whole q).value (whole q).next s)
    (hnext : ∀ q, (whole q).next = q.next) :
    Follows c stack held
      ((result.mapError (·.inContext p.context)).bind fun q => .ok (whole q)) := by
  cases result with
  | error e => exact houtcome.trans hright
  | ok q =>
      obtain ⟨s, hs, hright⟩ := hright
      refine ⟨s, hheld q s hs, ?_⟩
      rw [houtcome, hright, hnext]

/-- To what a chain is held as nothing can be attached: the next token closes a group, or it is
refused. -/
lemma step_of_settled (inner : Expr) (outer : List Pending) {primary : Bool} {t : Token}
    (ht : c.current? = some t) (hsettled : Settled primary c)
    (hguard : c.isAtClass .conditional = false) (hchain : c.isAtClass .chaining = false) :
    (holding primary inner outer).step t = close t inner outer := by
  rw [Cursor.isAtClass, Cursor.operatorClass?_of_current? ht] at hguard hchain
  rw [Settled, Cursor.operatorClass?_of_current? ht] at hsettled
  -- An operator closes nothing, so that it is refused.
  have hrefuse : ∀ cl, t.operatorClass? = some cl →
      close t inner outer = .error (refuse t outer) := by
    intro cl hcl
    have hparen : ¬ t.isParen .right = true := by
      rw [Token.isParen_iff]
      intro hkind
      rw [Token.operatorClass?_of_paren hkind] at hcl
      cases hcl
    rw [close, if_neg hparen]
  rw [State.step]
  cases hclass : t.operatorClass? with
  | none => rfl
  | some cl =>
      rw [hclass] at hguard hchain hsettled
      cases cl with
      | conditional => cases hguard
      | chaining => cases hchain
      | postfixed =>
          cases primary with
          | true => exact absurd rfl (hsettled rfl).1
          | false => exact (hrefuse _ hclass).symm
      | assignment =>
          cases primary with
          | true => exact absurd rfl (hsettled rfl).2
          | false => exact (hrefuse _ hclass).symm

/-- A chain goes on behind `>>` with a chain. -/
lemma follows_chain (hstack : TakesChain stack)
    (hleft : Follows c stack (ConditionalHeld stack) (Descent.conditional c))
    (hlater : ∀ d : Cursor, d.remaining < c.remaining → ∀ stack, TakesChain stack →
      Follows d stack (ChainHeld stack) (Descent.chain d)) :
    Follows c stack (ChainHeld stack) (Descent.chain c) := by
  rw [Descent.chain]
  refine hleft.bind fun left s hheld houtcome => ?_
  obtain ⟨hguard, primary, inner, outer, rfl, hsettled, hclose⟩ := hheld
  cases hat : left.next.isAtClass .chaining with
  | false =>
      refine ⟨_, ⟨hguard, hat, primary, inner, outer, rfl, hsettled, ?_⟩, houtcome⟩
      rw [← closeAll_closeGuards, hclose, closeAll_closeGuards]
  | true =>
      obtain ⟨t, ht, hclass⟩ := Cursor.isAtClass_iff.1 hat
      have hstep : (holding primary inner outer).step t =
          .ok (wanting (.chain left.value t :: stack)) := by
        rw [State.step, hclass]
        simp only [hclose, hstack.2]
      have hright := hlater left.next.next
        (Nat.lt_trans (Cursor.remaining_next_lt ht) left.lt) (.chain left.value t :: stack)
        ⟨fun e => rfl, fun e => rfl⟩
      rw [outcome_of_step ht hstep] at houtcome
      rw [if_pos rfl, Descent.bump_of_current? ht]
      exact hright.behind houtcome (fun _ _ hheld => hheld) fun _ => rfl

/-- A conditional goes on behind `=>` with a conditional. -/
lemma follows_conditional
    (hleft : Follows c stack (AssignmentHeld stack) (Descent.assignment c))
    (hlater : ∀ d : Cursor, d.remaining < c.remaining → ∀ stack, TakesAssignment stack →
      Follows d stack (ConditionalHeld stack) (Descent.conditional d)) :
    Follows c stack (ConditionalHeld stack) (Descent.conditional c) := by
  rw [Descent.conditional]
  refine hleft.bind fun condition s hheld houtcome => ?_
  obtain ⟨primary, rfl, hsettled⟩ := hheld
  cases hat : condition.next.isAtClass .conditional with
  | false => exact ⟨_, ⟨hat, primary, _, _, rfl, hsettled, rfl⟩, houtcome⟩
  | true =>
      obtain ⟨t, ht, hclass⟩ := Cursor.isAtClass_iff.1 hat
      have hstep : (holding primary condition.value stack).step t =
          .ok (wanting (.guard condition.value t :: stack)) := by
        rw [State.step, hclass]
      have hright := hlater condition.next.next
        (Nat.lt_trans (Cursor.remaining_next_lt ht) condition.lt)
        (.guard condition.value t :: stack) fun e => rfl
      rw [outcome_of_step ht hstep] at houtcome
      rw [if_pos rfl, Descent.bump_of_current? ht]
      exact hright.behind houtcome (fun _ _ hheld => hheld) fun _ => rfl

/-- An assignment has a primary on either side of its operator. -/
lemma follows_assignment (hstack : TakesAssignment stack)
    (hleft : Follows c stack (fun e _ s => s = receive e stack) (Descent.primary c))
    (hlater : ∀ d : Cursor, d.remaining < c.remaining → ∀ stack,
      Follows d stack (fun e _ s => s = receive e stack) (Descent.primary d)) :
    Follows c stack (AssignmentHeld stack) (Descent.assignment c) := by
  rw [Descent.assignment]
  refine hleft.bind fun operand s hheld houtcome => ?_
  rw [hheld, hstack] at houtcome
  split
  · rename_i hclass
    obtain ⟨t, ht, hclass⟩ := Cursor.operatorClass?_eq_some_iff.1 hclass
    have hstep : (holding true operand.value stack).step t =
        .ok (holding false (.increment operand.value t) stack) := by
      rw [State.step, hclass]
      rfl
    rw [outcome_of_step ht hstep] at houtcome
    rw [Descent.bump_of_current? ht]
    exact ⟨_, ⟨false, rfl, fun h => absurd h Bool.false_ne_true⟩, houtcome⟩
  · rename_i hclass
    obtain ⟨t, ht, hclass⟩ := Cursor.operatorClass?_eq_some_iff.1 hclass
    have hstep : (holding true operand.value stack).step t =
        .ok (wanting (.update operand.value t :: stack)) := by
      rw [State.step, hclass]
      rfl
    have hright := hlater operand.next.next
      (Nat.lt_trans (Cursor.remaining_next_lt ht) operand.lt)
      (.update operand.value t :: stack)
    rw [outcome_of_step ht hstep] at houtcome
    rw [Descent.bump_of_current? ht]
    exact hright.behind houtcome
      (fun _ _ hs => ⟨false, hs, fun h => absurd h Bool.false_ne_true⟩) fun _ => rfl
  · rename_i hpostfixed hassignment
    exact ⟨_, ⟨true, rfl, fun _ => ⟨hpostfixed, hassignment⟩⟩, houtcome⟩

/-- A group has a chain in it. -/
lemma follows_grouping {t : Token} (ht : c.current? = some t) (hleft : t.isParen .left = true)
    (hlater : ∀ d : Cursor, d.remaining < c.remaining → ∀ stack, TakesChain stack →
      Follows d stack (ChainHeld stack) (Descent.chain d)) :
    Follows c stack (fun e _ s => s = receive e stack) (Descent.grouping c) := by
  have hstep : (wanting stack).step t = .ok (wanting (.group t :: stack)) := by
    rw [State.step, if_pos hleft]
  have hinner := hlater c.next (Cursor.remaining_next_lt ht) (.group t :: stack)
    ⟨fun e => rfl, fun e => rfl⟩
  rw [Descent.grouping, Descent.bump_of_current? ht]
  simp only [bind, Except.bind]
  cases hresult : Descent.chain c.next with
  | error e =>
      rw [hresult] at hinner
      exact (outcome_of_step ht hstep).trans hinner
  | ok inner =>
      rw [hresult] at hinner
      obtain ⟨_, ⟨hguard, hchain, primary, link, outer, rfl, hsettled, hclose⟩, hinner⟩ := hinner
      have hclose : closeAll link outer = (inner.value, .group t :: stack) := hclose
      have houtcome := (outcome_of_step ht hstep).trans hinner
      have hopen : openGroup? outer = some t := by
        rw [← openGroup?_closeAll link, hclose]
        rfl
      -- The error of a group that is not closed has its context already.
      have hunclosed : ((ParseError.unclosedParen t.span inner.next.currentSpan).inContext
          .grouping).climb stack = Fault.error inner.next (.groupUnclosed t) :=
        ParseError.climb_of_ne_effect (Pending.group t).context_ne_effect stack
      dsimp only
      cases hcurrent : inner.next.current? with
      | none =>
          have hat : inner.next.isAtParen .right = false := by
            rw [Cursor.isAtParen, hcurrent]
            rfl
          rw [outcome_of_end hcurrent, State.finish, hopen] at houtcome
          rw [hat, if_neg Bool.false_ne_true]
          exact houtcome.trans (congrArg Except.error hunclosed.symm)
      | some closing =>
          have hstep := step_of_settled link outer hcurrent hsettled hguard hchain
          rw [Cursor.isAtParen_of_current? hcurrent]
          rw [close] at hstep
          cases hright : closing.isParen .right with
          | true =>
              rw [hright, if_pos rfl, hclose] at hstep
              rw [outcome_of_step hcurrent hstep] at houtcome
              simp only [if_true, Descent.bump_of_current? hcurrent]
              exact ⟨_, rfl, houtcome⟩
          | false =>
              rw [hright, if_neg Bool.false_ne_true, refuse, hopen] at hstep
              rw [outcome_of_fault hcurrent hstep] at houtcome
              rw [if_neg Bool.false_ne_true]
              exact houtcome.trans (congrArg Except.error hunclosed.symm)

/-- A primary is a group or a token that stands alone. -/
lemma follows_primary
    (hgroup : ∀ t, c.current? = some t → t.isParen .left = true →
      Follows c stack (fun e _ s => s = receive e stack) (Descent.grouping c)) :
    Follows c stack (fun e _ s => s = receive e stack) (Descent.primary c) := by
  rw [Descent.primary]
  cases ht : c.current? with
  | none =>
      rw [Follows, outcome_of_end ht, ParseError.climb_eq_inContext rfl]
      rfl
  | some t =>
      dsimp only
      cases hleft : t.isParen .left with
      | true => exact hgroup t ht hleft
      | false =>
          cases hatom : t.isAtom with
          | true =>
              have hstep : (wanting stack).step t = .ok (receive (.atom t) stack) := by
                rw [State.step, hleft, if_neg Bool.false_ne_true, if_pos hatom]
              simp only [Bool.false_eq_true, if_false, if_true, Descent.bump_of_current? ht]
              exact ⟨_, rfl, outcome_of_step ht hstep⟩
          | false =>
              have hstep : (wanting stack).step t =
                  .error (.operandExpected (context stack) (some t)) := by
                rw [State.step, hleft, if_neg Bool.false_ne_true, hatom,
                  if_neg Bool.false_ne_true]
              simp only [Bool.false_eq_true, if_false]
              rw [Follows, outcome_of_fault ht hstep, ParseError.climb_eq_inContext rfl]
              rfl

end Levels

/-! ## The whole descent -/

/-- The automaton follows the levels from any place on. -/
structure FollowsLevels (c : Cursor) : Prop where
  chain : ∀ stack, TakesChain stack → Follows c stack (ChainHeld stack) (Descent.chain c)
  conditional : ∀ stack, TakesAssignment stack →
    Follows c stack (ConditionalHeld stack) (Descent.conditional c)
  primary : ∀ stack, Follows c stack (fun e _ s => s = receive e stack) (Descent.primary c)

/-- Each level is followed because the tighter ones are, from the same place, and because all of
them are from later places. -/
lemma followsLevels (c : Cursor) : FollowsLevels c := by
  induction hn : c.remaining using Nat.strongRecOn generalizing c with
  | _ n ih =>
      have hlater : ∀ d : Cursor, d.remaining < c.remaining → FollowsLevels d :=
        fun d hd => ih d.remaining (hn ▸ hd) d rfl
      have hprimary : ∀ stack,
          Follows c stack (fun e _ s => s = receive e stack) (Descent.primary c) :=
        fun stack => follows_primary fun t ht hleft =>
          follows_grouping ht hleft fun d hd => (hlater d hd).chain
      have hconditional : ∀ stack, TakesAssignment stack →
          Follows c stack (ConditionalHeld stack) (Descent.conditional c) := fun stack hstack =>
        follows_conditional
          (follows_assignment hstack (hprimary stack) fun d hd => (hlater d hd).primary)
          fun d hd => (hlater d hd).conditional
      exact
        { chain := fun stack hstack =>
            follows_chain hstack (hconditional stack hstack.1) fun d hd => (hlater d hd).chain
          conditional := hconditional
          primary := hprimary }

/-- The parser that goes down through the levels reads the same effects as the automaton, and
reports the same errors. -/
theorem descent_parse_eq (ts : List Token) : Descent.parse ts = parse ts := by
  cases ts with
  | nil => rfl
  | cons first rest =>
      have hfollows := (followsLevels (Cursor.ofList (first :: rest))).chain []
        ⟨fun e => rfl, fun e => rfl⟩
      have hparse : parse (first :: rest) =
          (wanting []).outcome (Cursor.ofList (first :: rest)) := by
        rw [parse_eq_run (List.cons_ne_nil _ _)]
        rfl
      have hstart : (Cursor.ofList (first :: rest)).atEnd = false := rfl
      rw [hparse, Descent.parse]
      simp only [hstart, Bool.false_eq_true, if_false, bind, Except.bind]
      cases hresult : Descent.chain (Cursor.ofList (first :: rest)) with
      | error e =>
          rw [hresult] at hfollows
          exact hfollows.symm
      | ok root =>
          rw [hresult] at hfollows
          obtain ⟨_, ⟨hguard, hchain, primary, inner, outer, rfl, hsettled, hclose⟩, houtcome⟩ :=
            hfollows
          have hclose : closeAll inner outer = (root.value, []) := hclose
          have hopen : openGroup? outer = none := by
            rw [← openGroup?_closeAll inner, hclose]
            rfl
          rw [houtcome]
          dsimp only
          cases hcurrent : root.next.current? with
          | none =>
              rw [outcome_of_end hcurrent, State.finish, hopen, hclose]
              rfl
          | some t =>
              -- No group is open that the token could close.
              have hstep : (holding primary inner outer).step t = .error (.surplus t) := by
                rw [step_of_settled inner outer hcurrent hsettled hguard hchain, close, hclose,
                  refuse, hopen]
                exact ite_self _
              rw [outcome_of_fault hcurrent hstep, Fault.error]
              dsimp only
              cases t.isParen .right <;> rfl

end EffectLang.Grammar
