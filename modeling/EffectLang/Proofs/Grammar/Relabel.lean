import EffectLang.Expr.Verdict
import EffectLang.Proofs.Grammar.Run

/-!
# Parsing and judging look at the skeleton of a token

The skeleton of a token is what remains without the text of a name, the value of a number, the body
of a logic string, and everything around the content.  `mapTokens f` puts other tokens in the places
of a tree, of a state and of a fault.

**The parser commutes with a change of tokens** that leaves the skeletons alone
(`parse_map_of_ok`, `parse_map_of_error`): one step does (`step_mapTokens`), hence a run
(`run_mapTokens`).  **The verdict on a tree does not change at all** (`Expr.verdict_mapTokens`).

So two lists of tokens that some such change makes equal are accepted with trees, or refused with
errors, that it makes equal (`parse_of_map_eq`).  `Token.erase` is such a change: lists of tokens
that differ only in where the tokens stand, in the text around them and in the bodies of their logic
strings parse alike (`alike_of_erase_eq`).
-/

namespace EffectLang

/-! ## Skeletons -/

namespace TokenKind

/-- The kind without what it carries, apart from the symbol of an operator and the side of a
parenthesis. -/
def skeleton : TokenKind → TokenKind
  | name _ => name ""
  | number _ => number 0
  | operator symbol => operator symbol
  | paren side => paren side
  | logic _ => logic ""

lemma isAtom_skeleton (k : TokenKind) : k.skeleton.isAtom = k.isAtom := by
  cases k <;> rfl

lemma ofAtom_skeleton (k : TokenKind) : TypeSet.ofAtom k.skeleton = TypeSet.ofAtom k := by
  cases k <;> rfl

/-- The kind without the body of a logic string. -/
def eraseBody : TokenKind → TokenKind
  | logic _ => logic ""
  | k => k

lemma skeleton_eraseBody (k : TokenKind) : k.eraseBody.skeleton = k.skeleton := by
  cases k <;> rfl

lemma describe_eraseBody (k : TokenKind) : k.eraseBody.describe = k.describe := by
  cases k <;> rfl

end TokenKind

namespace Token

/-- The kind of a token without the body of a logic string, standing nowhere in particular. -/
def erase (t : Token) : Token := bare t.kind.eraseBody

lemma name?_erase (t : Token) : t.erase.name? = t.name? := by
  cases h : t.kind <;> simp [erase, bare, name?, h, TokenKind.eraseBody]

lemma describe_erase (t : Token) : t.erase.describe = t.describe := t.kind.describe_eraseBody

section Skeleton

variable {t u : Token}

/-- What can be told from the skeleton of a kind is the same for two tokens of one skeleton. -/
lemma eq_of_skeleton {α : Type} (h : t.kind.skeleton = u.kind.skeleton) (test : TokenKind → α)
    (htest : ∀ k, test k.skeleton = test k) : test t.kind = test u.kind := by
  rw [← htest, h, htest]

lemma isAtom_of_skeleton (h : t.kind.skeleton = u.kind.skeleton) : t.isAtom = u.isAtom :=
  eq_of_skeleton h TokenKind.isAtom TokenKind.isAtom_skeleton

lemma operator?_of_skeleton (h : t.kind.skeleton = u.kind.skeleton) :
    t.operator? = u.operator? :=
  eq_of_skeleton h (fun k => (bare k).operator?) fun k => by cases k <;> rfl

lemma paren?_of_skeleton (h : t.kind.skeleton = u.kind.skeleton) : t.paren? = u.paren? :=
  eq_of_skeleton h (fun k => (bare k).paren?) fun k => by cases k <;> rfl

lemma isSome_name?_of_skeleton (h : t.kind.skeleton = u.kind.skeleton) :
    t.name?.isSome = u.name?.isSome :=
  eq_of_skeleton h (fun k => (bare k).name?.isSome) fun k => by cases k <;> rfl

lemma isParen_of_skeleton (h : t.kind.skeleton = u.kind.skeleton) (side : Paren) :
    t.isParen side = u.isParen side := by
  rw [isParen, isParen, paren?_of_skeleton h]

lemma isOperator_of_skeleton (h : t.kind.skeleton = u.kind.skeleton) (symbol : String) :
    t.isOperator symbol = u.isOperator symbol := by
  rw [isOperator, isOperator, operator?_of_skeleton h]

lemma operatorClass?_of_skeleton (h : t.kind.skeleton = u.kind.skeleton) :
    t.operatorClass? = u.operatorClass? := by
  rw [operatorClass?, operatorClass?, operator?_of_skeleton h]

end Skeleton

end Token

/-- A change of tokens that leaves the skeletons alone. -/
def KeepsSkeleton (f : Token → Token) : Prop := ∀ t, (f t).kind.skeleton = t.kind.skeleton

lemma keepsSkeleton_erase : KeepsSkeleton Token.erase := fun t => t.kind.skeleton_eraseBody

/-! ## Trees -/

namespace Expr

variable {f : Token → Token}

/-- The same tree over other tokens. -/
def mapTokens (f : Token → Token) : Expr → Expr
  | atom t => atom (f t)
  | grouping opening inner closing => grouping (f opening) (inner.mapTokens f) (f closing)
  | increment operand operator => increment (operand.mapTokens f) (f operator)
  | assignment target operator value =>
      assignment (target.mapTokens f) (f operator) (value.mapTokens f)
  | conditional condition operator effect =>
      conditional (condition.mapTokens f) (f operator) (effect.mapTokens f)
  | chaining first operator second =>
      chaining (first.mapTokens f) (f operator) (second.mapTokens f)

/-- The tree without spans, without the text around its tokens and without the bodies of its logic
strings. -/
def erase : Expr → Expr := mapTokens Token.erase

/-- To change the tokens of a tree is to change each of them. -/
lemma tokens_mapTokens (e : Expr) : (e.mapTokens f).tokens = e.tokens.map f := by
  induction e with
  | atom t => simp [mapTokens, tokens_atom]
  | grouping o e c ih => simp [mapTokens, tokens_grouping, ih]
  | increment e op ih => simp [mapTokens, tokens_increment, ih]
  | assignment l op r ihl ihr => simp [mapTokens, tokens_assignment, ihl, ihr]
  | conditional l op r ihl ihr => simp [mapTokens, tokens_conditional, ihl, ihr]
  | chaining l op r ihl ihr => simp [mapTokens, tokens_chaining, ihl, ihr]

lemma names_erase (e : Expr) : e.erase.names = e.names := by
  have hname : Token.name? ∘ Token.erase = Token.name? := funext Token.name?_erase
  rw [names, erase, tokens_mapTokens, List.filterMap_map, hname, names]

/-- A bare name stays one. -/
lemma isName_mapTokens (hf : KeepsSkeleton f) (e : Expr) :
    (e.mapTokens f).isName = e.isName := by
  cases e with
  | atom t => exact Token.isSome_name?_of_skeleton (hf t)
  | _ => rfl

/-- A tree is judged by the skeletons of its tokens. -/
theorem verdict_mapTokens (hf : KeepsSkeleton f) (e : Expr) :
    (e.mapTokens f).verdict = e.verdict := by
  induction e with
  | atom t =>
      have htypes : TypeSet.ofAtom (f t).kind = TypeSet.ofAtom t.kind :=
        Token.eq_of_skeleton (hf t) TypeSet.ofAtom TokenKind.ofAtom_skeleton
      rw [mapTokens, verdict, verdict, Verdict.atom, Verdict.atom, htypes,
        Token.isAtom_of_skeleton (hf t)]
  | grouping o e c ih =>
      rw [mapTokens, verdict, verdict, ih, Verdict.grouping, Verdict.grouping,
        Token.isParen_of_skeleton (hf o), Token.isParen_of_skeleton (hf c)]
  | increment e op =>
      rw [mapTokens, verdict, verdict, isName_mapTokens hf, Verdict.increment, Verdict.increment,
        Token.operatorClass?_of_skeleton (hf op)]
  | assignment l op r _ ihr =>
      rw [mapTokens, verdict, verdict, ihr, isName_mapTokens hf, Verdict.assignment,
        Verdict.assignment, Token.operatorClass?_of_skeleton (hf op)]
  | conditional l op r ihl ihr =>
      rw [mapTokens, verdict, verdict, ihl, ihr, Verdict.conditional, Verdict.conditional,
        Token.isOperator_of_skeleton (hf op)]
  | chaining l op r ihl ihr =>
      rw [mapTokens, verdict, verdict, ihl, ihr, Verdict.chaining, Verdict.chaining,
        Token.isOperator_of_skeleton (hf op)]

/-- Trees that such a change makes equal are judged alike. -/
lemma check_eq_of_mapTokens_eq (hf : KeepsSkeleton f) {e e' : Expr}
    (h : e.mapTokens f = e'.mapTokens f) : e.check = e'.check := by
  rw [check_eq_verdict, check_eq_verdict, ← verdict_mapTokens hf e, h, verdict_mapTokens hf]

/-- The verdict on a tree and the names in it are left when spans, the text around the tokens and
the bodies of logic strings are erased. -/
theorem check_eq_of_erase_eq {e e' : Expr} (h : e.erase = e'.erase) :
    e.check = e'.check ∧ e.names = e'.names := by
  refine ⟨check_eq_of_mapTokens_eq keepsSkeleton_erase h, ?_⟩
  rw [← names_erase e, h, names_erase]

end Expr

namespace Grammar

open Pending State

/-! ## The automaton -/

/-- A pending construct with its tokens changed. -/
def Pending.mapTokens (f : Token → Token) : Pending → Pending
  | group opening => group (f opening)
  | chain first operator => chain (first.mapTokens f) (f operator)
  | guard condition operator => guard (condition.mapTokens f) (f operator)
  | update target operator => update (target.mapTokens f) (f operator)

/-- A state with its tokens changed. -/
def State.mapTokens (f : Token → Token) : State → State
  | wanting stack => wanting (stack.map (Pending.mapTokens f))
  | holding primary e stack => holding primary (e.mapTokens f) (stack.map (Pending.mapTokens f))

/-- A fault with its tokens changed. -/
def Fault.mapTokens (f : Token → Token) : Fault → Fault
  | operandExpected construct found => operandExpected construct (found.map f)
  | groupUnclosed opening => groupUnclosed (f opening)
  | surplus found => surplus (f found)

variable {f : Token → Token}

lemma openGroup?_map (stack : List Pending) :
    openGroup? (stack.map (Pending.mapTokens f)) = (openGroup? stack).map f := by
  induction stack with
  | nil => rfl
  | cons p stack ih =>
      cases p with
      | group opening => rfl
      | _ => exact ih

lemma context_map (stack : List Pending) :
    State.context (stack.map (Pending.mapTokens f)) = State.context stack := by
  cases stack with
  | nil => rfl
  | cons p stack => cases p <;> rfl

lemma closeGuards_map (e : Expr) (stack : List Pending) :
    closeGuards (e.mapTokens f) (stack.map (Pending.mapTokens f)) =
      ((closeGuards e stack).1.mapTokens f, (closeGuards e stack).2.map (Pending.mapTokens f)) := by
  induction stack generalizing e with
  | nil => rfl
  | cons p stack ih =>
      cases p with
      | guard condition operator => exact ih (.conditional condition operator e)
      | _ => rfl

lemma closeAll_map (e : Expr) (stack : List Pending) :
    closeAll (e.mapTokens f) (stack.map (Pending.mapTokens f)) =
      ((closeAll e stack).1.mapTokens f, (closeAll e stack).2.map (Pending.mapTokens f)) := by
  induction stack generalizing e with
  | nil => rfl
  | cons p stack ih =>
      cases p with
      | guard condition operator => exact ih (.conditional condition operator e)
      | chain first operator => exact ih (.chaining first operator e)
      | _ => rfl

lemma receive_map (e : Expr) (stack : List Pending) :
    receive (e.mapTokens f) (stack.map (Pending.mapTokens f)) =
      (receive e stack).mapTokens f := by
  cases stack with
  | nil => rfl
  | cons p stack => cases p <;> rfl

lemma refuse_map (t : Token) (stack : List Pending) :
    refuse (f t) (stack.map (Pending.mapTokens f)) = (refuse t stack).mapTokens f := by
  rw [refuse, refuse, openGroup?_map]
  cases openGroup? stack <;> rfl

/-- To close with changed tokens comes to the same, changed. -/
lemma close_mapTokens (hf : KeepsSkeleton f) (t : Token) (e : Expr) (stack : List Pending) :
    close (f t) (e.mapTokens f) (stack.map (Pending.mapTokens f)) =
      ((close t e stack).map (State.mapTokens f)).mapError (Fault.mapTokens f) := by
  rw [close, close, Token.isParen_of_skeleton (hf t), closeAll_map, refuse_map]
  split
  · cases hclose : closeAll e stack with
    | mk inner rest =>
        cases rest with
        | nil => rfl
        | cons p outer =>
            cases p with
            | group opening =>
                exact congrArg Except.ok (receive_map (.grouping opening inner t) outer)
            | _ => rfl
  · rfl

/-- One step commutes with a change of tokens. -/
theorem step_mapTokens (hf : KeepsSkeleton f) (s : State) (t : Token) :
    (s.mapTokens f).step (f t) =
      ((s.step t).map (State.mapTokens f)).mapError (Fault.mapTokens f) := by
  cases s with
  | wanting stack =>
      simp only [State.mapTokens, State.step, Token.isParen_of_skeleton (hf t),
        Token.isAtom_of_skeleton (hf t), context_map]
      split
      · rfl
      · split
        · exact congrArg Except.ok (receive_map (.atom t) stack)
        · rfl
  | holding primary e stack =>
      simp only [State.mapTokens, State.step, Token.operatorClass?_of_skeleton (hf t), refuse_map,
        closeGuards_map, close_mapTokens hf]
      split
      · cases primary <;> rfl
      · cases primary <;> rfl
      · rfl
      · rfl
      · rfl

/-- To finish with changed tokens comes to the same, changed. -/
lemma finish_mapTokens (s : State) :
    (s.mapTokens f).finish =
      (s.finish.map (Expr.mapTokens f)).mapError (Fault.mapTokens f) := by
  cases s with
  | wanting stack =>
      simp only [State.mapTokens, State.finish, context_map]
      rfl
  | holding primary e stack =>
      simp only [State.mapTokens, State.finish, openGroup?_map, closeAll_map]
      cases openGroup? stack <;> rfl

/-- A run commutes with a change of tokens, and faults are found at the same place. -/
theorem run_mapTokens (hf : KeepsSkeleton f) (s : State) (position : Nat) (ts : List Token) :
    (s.mapTokens f).run position (ts.map f) =
      ((s.run position ts).map (Expr.mapTokens f)).mapError
        (Prod.map (Fault.mapTokens f) id) := by
  induction ts generalizing s position with
  | nil =>
      simp only [List.map_nil, State.run, finish_mapTokens]
      cases s.finish <;> rfl
  | cons t ts ih =>
      simp only [List.map_cons, State.run, step_mapTokens hf]
      cases s.step t with
      | ok next => exact ih next (position + 1)
      | error fault => rfl

/-! ## Errors -/

/-- The kind of an error without the token that was found. -/
def ParseErrorKind.skeleton : ParseErrorKind → ParseErrorKind
  | unclosedParen => unclosedParen
  | unmatchedCloseParen => unmatchedCloseParen
  | expectedOperand _ => expectedOperand ""
  | unexpectedEndOfInput => unexpectedEndOfInput
  | trailingTokens _ => trailingTokens ""
  | emptyInput => emptyInput

/-- What a change of tokens leaves of an error. -/
structure ParseError.Relabels (f : Token → Token) (err err' : ParseError) : Prop where
  skeleton : err'.kind.skeleton = err.kind.skeleton
  context : err'.context = err.context
  hint : err'.hint = err.hint
  kind : (∀ t, (f t).describe = t.describe) → err'.kind = err.kind
  span : (∀ t, (f t).span = t.span) → err'.span = err.span
  related : (∀ t, (f t).span = t.span) → err'.related = err.related

/-- The same place in a list with its tokens changed. -/
def Cursor.mapTokens (f : Token → Token) (c : Cursor) : Cursor := ⟨c.tokens.map f, c.position⟩

section Place

variable (hspan : ∀ t, (f t).span = t.span) (c : Cursor)

include hspan

lemma endSpan_mapTokens : (c.mapTokens f).endSpan = c.endSpan := by
  simp only [Cursor.endSpan, Cursor.mapTokens, List.getLast?_map]
  cases c.tokens.getLast? <;> simp [hspan]

lemma currentSpan_mapTokens : (c.mapTokens f).currentSpan = c.currentSpan := by
  rw [Cursor.currentSpan, Cursor.currentSpan, endSpan_mapTokens hspan]
  simp only [Cursor.current?, Cursor.mapTokens, List.getElem?_map]
  cases c.tokens[c.position]? <;> simp [hspan]

lemma remainingSpan_mapTokens : (c.mapTokens f).remainingSpan = c.remainingSpan := by
  rw [Cursor.remainingSpan, Cursor.remainingSpan, endSpan_mapTokens hspan]
  simp only [Cursor.current?, Cursor.mapTokens, List.getElem?_map, List.getLast?_map]
  cases c.tokens[c.position]? <;> cases c.tokens.getLast? <;> simp [hspan]

end Place

/-- A change of tokens relabels the error of a fault. -/
lemma relabels_error (hf : KeepsSkeleton f) (fault : Fault) (c : Cursor) :
    (fault.error c).Relabels f ((fault.mapTokens f).error (c.mapTokens f)) := by
  cases fault with
  | operandExpected construct found =>
      cases found with
      | none =>
          refine ⟨rfl, rfl, rfl, fun _ => rfl, fun hspan => ?_, fun _ => rfl⟩
          simp [Fault.mapTokens, Fault.error, ParseError.unexpectedEndOfInput,
            endSpan_mapTokens hspan]
      | some t =>
          refine ⟨?_, rfl, rfl, fun hdescribe => ?_, fun hspan => ?_, fun _ => rfl⟩
          · simp [Fault.mapTokens, Fault.error, ParseError.expectedOperand,
              ParseErrorKind.skeleton]
          · simp [Fault.mapTokens, Fault.error, ParseError.expectedOperand, hdescribe]
          · simp [Fault.mapTokens, Fault.error, ParseError.expectedOperand, hspan]
  | groupUnclosed opening =>
      refine ⟨rfl, rfl, rfl, fun _ => rfl, fun hspan => ?_, fun hspan => ?_⟩
      · simp [Fault.mapTokens, Fault.error, ParseError.unclosedParen, currentSpan_mapTokens hspan]
      · simp [Fault.mapTokens, Fault.error, ParseError.unclosedParen, hspan]
  | surplus t =>
      simp only [Fault.mapTokens, Fault.error, Token.isParen_of_skeleton (hf t)]
      split
      · exact ⟨rfl, rfl, rfl, fun _ => rfl, fun hspan => hspan t, fun _ => rfl⟩
      · refine ⟨rfl, rfl, rfl, fun hdescribe => ?_, fun hspan => ?_, fun _ => rfl⟩
        · rw [ParseError.trailingTokens, ParseError.trailingTokens, hdescribe]
        · exact remainingSpan_mapTokens hspan c

/-! ## The parser -/

lemma run_map_start (hf : KeepsSkeleton f) (ts : List Token) :
    (wanting []).run 0 (ts.map f) =
      (((wanting []).run 0 ts).map (Expr.mapTokens f)).mapError
        (Prod.map (Fault.mapTokens f) id) :=
  run_mapTokens hf (wanting []) 0 ts

/-- Changed tokens parse to the changed tree. -/
theorem parse_map_of_ok (hf : KeepsSkeleton f) {ts : List Token} {e : Expr}
    (h : parse ts = .ok e) : parse (ts.map f) = .ok (e.mapTokens f) := by
  by_cases hne : ts = []
  · subst hne
    cases h
  · rw [parse_eq_run hne] at h
    rw [parse_eq_run (fun hnil => hne (List.map_eq_nil_iff.1 hnil)), run_map_start hf]
    cases hrun : (wanting []).run 0 ts with
    | ok e' =>
        rw [hrun] at h
        cases h
        rfl
    | error found =>
        rw [hrun] at h
        cases h

/-- Changed tokens are refused with the error relabelled. -/
theorem parse_map_of_error (hf : KeepsSkeleton f) {ts : List Token} {err : ParseError}
    (h : parse ts = .error err) : ∃ err', parse (ts.map f) = .error err' ∧ err.Relabels f err' := by
  by_cases hne : ts = []
  · subst hne
    cases h
    exact ⟨_, rfl, rfl, rfl, rfl, fun _ => rfl, fun _ => rfl, fun _ => rfl⟩
  · rw [parse_eq_run hne] at h
    rw [parse_eq_run (fun hnil => hne (List.map_eq_nil_iff.1 hnil)), run_map_start hf]
    cases hrun : (wanting []).run 0 ts with
    | ok e =>
        rw [hrun] at h
        cases h
    | error found =>
        rw [hrun] at h
        cases h
        exact ⟨_, rfl, relabels_error hf found.1 ⟨ts, found.2⟩⟩

/-- Lists of tokens that a change makes equal are both an effect, of trees that it makes equal, or
are both refused, with errors of which it leaves the same. -/
theorem parse_of_map_eq (hf : KeepsSkeleton f) {ts us : List Token} (h : ts.map f = us.map f) :
    (∃ e e', parse ts = .ok e ∧ parse us = .ok e' ∧ e.mapTokens f = e'.mapTokens f) ∨
      ∃ err err' common, parse ts = .error err ∧ parse us = .error err' ∧
        err.Relabels f common ∧ err'.Relabels f common := by
  cases hts : parse ts with
  | ok e =>
      have hok := parse_map_of_ok hf hts
      rw [h] at hok
      cases hus : parse us with
      | ok e' =>
          rw [parse_map_of_ok hf hus] at hok
          exact .inl ⟨e, e', rfl, rfl, (Except.ok.inj hok).symm⟩
      | error err' =>
          obtain ⟨_, herror, -⟩ := parse_map_of_error hf hus
          rw [herror] at hok
          cases hok
  | error err =>
      obtain ⟨common, herror, hleft⟩ := parse_map_of_error hf hts
      rw [h] at herror
      cases hus : parse us with
      | ok e' =>
          rw [parse_map_of_ok hf hus] at herror
          cases herror
      | error err' =>
          obtain ⟨_, herror', hright⟩ := parse_map_of_error hf hus
          rw [herror] at herror'
          cases herror'
          exact .inr ⟨err, err', common, rfl, rfl, hleft, hright⟩

/-- Both lists of tokens are an effect, of the same tree but for spans, the text around the tokens
and the bodies of logic strings; or they are refused for the same reason. -/
inductive Alike : Except ParseError Expr → Except ParseError Expr → Prop
  | ok {e e' : Expr} (h : e.erase = e'.erase) : Alike (.ok e) (.ok e')
  | error {err err' : ParseError} (hkind : err.kind = err'.kind)
      (hcontext : err.context = err'.context) : Alike (.error err) (.error err')

/-- Lists of tokens that are equal but for what `Token.erase` erases parse alike. -/
theorem alike_of_erase_eq {ts us : List Token} (h : ts.map Token.erase = us.map Token.erase) :
    Alike (parse ts) (parse us) := by
  rcases parse_of_map_eq keepsSkeleton_erase h with
    ⟨e, e', hts, hus, htree⟩ | ⟨err, err', common, hts, hus, hleft, hright⟩
  · rw [hts, hus]
    exact .ok htree
  · rw [hts, hus]
    have hkind := (hleft.kind Token.describe_erase).symm.trans (hright.kind Token.describe_erase)
    exact .error hkind (hleft.context.symm.trans hright.context)

end Grammar

end EffectLang
