import EffectLang.Proofs.Grammar.Viable

/-!
# How an error leaves the parser

An error arises in the innermost construct that is still waiting, and leaves one pending construct
after another until it is outside.  On its way each construct offers it a context
(`ParseError.climb`).  The main statement is `parse_error_context`: the context that an error has in
the end can be told from the token in front of it alone.

**The innermost context wins.**  No construct offers the context of a whole effect, which is the
only one that an error gives up.  So the first offer is taken, and all others are declined, however
many there are (`climb_eq_inContext`).

**All errors there are.**  `Refusal ts k err` lists the errors that a list of tokens can end in at
token `k`, each with the state that it arises in.  `refusal_of_parse_error` says that the parser
knows no others.

**The last token opened the construct that waits.**  An operand is wanted behind a token only if
this token has put a construct on the stack, and then it is the one on top (`Reads.awaited`).
-/

namespace EffectLang

namespace Grammar

open Pending State

/-! ## Leaving the pending constructs -/

/-- No construct offers the context of a whole effect. -/
lemma Pending.context_ne_effect (p : Pending) : p.context ≠ .effect := by
  cases p <;> simp [Pending.context]

namespace ParseError

/-- What becomes of an error that leaves all pending constructs, the innermost first: each one gives
it its context, if the error takes it. -/
def climb (e : ParseError) (stack : List Pending) : ParseError :=
  stack.foldl (fun e p => e.inContext p.context) e

variable {e : ParseError}

/-- An error with a narrow context takes no other one. -/
lemma climb_of_ne_effect (h : e.context ≠ .effect) (stack : List Pending) :
    e.climb stack = e := by
  induction stack with
  | nil => rfl
  | cons p stack ih =>
      have hp : e.inContext p.context = e := if_neg h
      rw [climb, List.foldl_cons, hp]
      exact ih

/-- The innermost context wins. -/
theorem climb_eq_inContext (h : e.context = .effect) (stack : List Pending) :
    e.climb stack = e.inContext (State.context stack) := by
  cases stack with
  | nil =>
      obtain ⟨kind, span, context, related, hint⟩ := e
      obtain rfl : context = .effect := h
      rfl
  | cons p stack =>
      have hp : (e.inContext p.context).context ≠ .effect := by
        rw [inContext, if_pos h]
        exact p.context_ne_effect
      exact climb_of_ne_effect hp stack

/-- The context that an error leaves with is that of the innermost construct. -/
lemma context_climb (h : e.context = .effect) (stack : List Pending) :
    (e.climb stack).context = State.context stack := by
  rw [climb_eq_inContext h, inContext, if_pos h]

/-- Nothing but its context changes on the way. -/
lemma exists_climb_eq (e : ParseError) (stack : List Pending) :
    ∃ context, e.climb stack = { e with context := context } := by
  by_cases h : e.context = .effect
  · rw [climb_eq_inContext h, inContext, if_pos h]
    exact ⟨_, rfl⟩
  · rw [climb_of_ne_effect h]
    exact ⟨e.context, rfl⟩

@[simp] lemma kind_climb (e : ParseError) (stack : List Pending) :
    (e.climb stack).kind = e.kind := by
  obtain ⟨context, h⟩ := exists_climb_eq e stack
  rw [h]

@[simp] lemma span_climb (e : ParseError) (stack : List Pending) :
    (e.climb stack).span = e.span := by
  obtain ⟨context, h⟩ := exists_climb_eq e stack
  rw [h]

@[simp] lemma related_climb (e : ParseError) (stack : List Pending) :
    (e.climb stack).related = e.related := by
  obtain ⟨context, h⟩ := exists_climb_eq e stack
  rw [h]

@[simp] lemma hint_climb (e : ParseError) (stack : List Pending) :
    (e.climb stack).hint = e.hint := by
  obtain ⟨context, h⟩ := exists_climb_eq e stack
  rw [h]

end ParseError

/-! ## All errors there are -/

/-- The error that the tokens `ts` end in at token `k`, or at their end. -/
inductive Refusal (ts : List Token) (k : Nat) : ParseError → Prop
  | empty (hnil : ts = []) : Refusal ts k .emptyInput
  /-- Behind the first `k` tokens an operand is wanted, and the next token is none. -/
  | operand {stack : List Pending} {t : Token}
      (hreads : Reads (wanting []) (ts.take k) (wanting stack)) (ht : ts[k]? = some t) :
      Refusal ts k ((ParseError.expectedOperand t.span t.describe).climb stack)
  | operandEnd {stack : List Pending} (hreads : Reads (wanting []) (ts.take k) (wanting stack))
      (hend : k = ts.length) :
      Refusal ts k ((ParseError.unexpectedEndOfInput (Cursor.endSpan ⟨ts, k⟩)).climb stack)
  /-- The innermost open group is complete, but for its end, which is not what comes next. -/
  | unclosed {primary : Bool} {e inner : Expr} {stack outer : List Pending} {opening : Token}
      (hreads : Reads (wanting []) (ts.take k) (holding primary e stack))
      (hclose : closeAll e stack = (inner, group opening :: outer)) :
      Refusal ts k ((ParseError.unclosedParen opening.span (Cursor.currentSpan ⟨ts, k⟩)).climb
        (group opening :: outer))
  /-- A whole effect is complete, and a parenthesis follows that closes nothing. -/
  | unmatched {primary : Bool} {e : Expr} {stack : List Pending} {t : Token}
      (hreads : Reads (wanting []) (ts.take k) (holding primary e stack))
      (hclosed : groups stack = []) (ht : ts[k]? = some t) (hright : t.kind = .paren .right) :
      Refusal ts k (.unmatchedCloseParen t.span)
  | trailing {primary : Bool} {e : Expr} {stack : List Pending} {t : Token}
      (hreads : Reads (wanting []) (ts.take k) (holding primary e stack))
      (hclosed : groups stack = []) (ht : ts[k]? = some t) (hright : t.kind ≠ .paren .right) :
      Refusal ts k (.trailingTokens (Cursor.remainingSpan ⟨ts, k⟩) t.describe)

section Refusal

variable {before after : List Token} {fault : Fault}

/-- What ends the tokens where an operand is wanted. -/
lemma refusal_of_wanting {stack : List Pending}
    (hreads : Reads (wanting []) before (wanting stack))
    (hstop : (wanting stack).StopsAt after fault) :
    Refusal (before ++ after) before.length
      (fault.error ⟨before ++ after, before.length⟩) := by
  have htake : (before ++ after).take before.length = before := List.take_left
  rw [← htake] at hreads
  rw [hstop.of_wanting]
  cases after with
  | nil =>
      have h := Refusal.operandEnd hreads (by rw [List.append_nil])
      rwa [ParseError.climb_eq_inContext rfl] at h
  | cons t after =>
      have ht : (before ++ t :: after)[before.length]? = some t := getElem?_behind _ _
      have h := Refusal.operand hreads ht
      rwa [ParseError.climb_eq_inContext rfl] at h

/-- What ends the tokens where an operand is held. -/
lemma refusal_of_holding {primary : Bool} {e : Expr} {stack : List Pending}
    (hreads : Reads (wanting []) before (holding primary e stack))
    (hstop : (holding primary e stack).StopsAt after fault) :
    Refusal (before ++ after) before.length
      (fault.error ⟨before ++ after, before.length⟩) := by
  have hsound := hreads.sound sound_start
  have htake : (before ++ after).take before.length = before := List.take_left
  rw [← htake] at hreads
  rcases hstop.of_holding with ⟨opening, hopening, rfl⟩ | ⟨hclosed, t, ht, rfl⟩
  · obtain ⟨inner, outer, hclose, -⟩ :=
      closeAll_of_openGroup hsound.2 hsound.1.of_held hopening
    have h := Refusal.unclosed hreads hclose
    rwa [ParseError.climb_eq_inContext rfl] at h
  · have ht' : (before ++ after)[before.length]? = some t := (getElem?_behind _ _).trans ht
    by_cases hright : t.kind = .paren .right
    · have h := Refusal.unmatched hreads hclosed ht' hright
      rwa [Fault.error, if_pos (Token.isParen_iff.2 hright)]
    · have h := Refusal.trailing hreads hclosed ht' hright
      rwa [Fault.error, if_neg (mt Token.isParen_iff.1 hright)]

/-- The parser knows no other errors.  An error stands behind the longest beginning that begins some
effect. -/
theorem refusal_of_parse_error {ts : List Token} {err : ParseError} (h : parse ts = .error err) :
    ∃ k, IsGreatest {m | m ≤ ts.length ∧ Viable (ts.take m)} k ∧ Refusal ts k err := by
  by_cases hnil : ts = []
  · subst hnil
    cases h
    have hstop : (wanting []).StopsAt [] (.operandExpected .effect none) := rfl
    exact ⟨0, isGreatest_of_stopsAt (.refl _) hstop, .empty rfl⟩
  · obtain ⟨before, after, last, fault, rfl, hreads, hstop, rfl⟩ := stopsAt_of_parse_error h hnil
    refine ⟨before.length, isGreatest_of_stopsAt hreads hstop, ?_⟩
    cases last with
    | wanting stack => exact refusal_of_wanting hreads hstop
    | holding primary e stack => exact refusal_of_holding hreads hstop

end Refusal

end Grammar

/-! ## The construct that waits -/

/-- The construct that a token opens: it waits for an operand behind the token. -/
def TokenKind.opens : TokenKind → Option Grammar.Context
  | paren .left => some .grouping
  | operator symbol =>
      if symbol = "+=" ∨ symbol = "-=" then some .assignment
      else if symbol = "=>" then some .conditional
      else if symbol = ">>" then some .chaining
      else none
  | paren .right => none
  | name _ => none
  | number _ => none
  | logic _ => none

namespace Grammar

open Pending State

/-- The construct that waits for an operand behind these tokens, if one does.  Behind no tokens at
all it is the whole effect. -/
def awaited (ts : List Token) : Option Context :=
  match ts.getLast? with
  | none => some .effect
  | some t => t.kind.opens

/-- A token behind which an operand is wanted has opened the construct that waits for it. -/
lemma Step.opens {s next : State} {t : Token} {stack : List Pending} (h : Step s t next)
    (hnext : next = wanting stack) : t.kind.opens = some (context stack) := by
  have hreceive : ∀ e stack', receive e stack' ≠ wanting stack := fun e stack' heq =>
    not_isWanting_receive e stack' (heq ▸ trivial)
  cases h with
  | opening ht =>
      cases hnext
      rw [ht]
      rfl
  | atom ht => exact absurd hnext (hreceive _ _)
  | increment ht => cases hnext
  | assignment ht =>
      cases hnext
      rcases Token.operatorClass?_eq_assignment.1 ht with ht | ht <;> rw [ht] <;> rfl
  | conditional ht =>
      cases hnext
      rw [Token.operatorClass?_eq_conditional.1 ht]
      rfl
  | chaining ht hc =>
      cases hnext
      rw [Token.operatorClass?_eq_chaining.1 ht]
      rfl
  | closing ht hc => exact absurd hnext (hreceive _ _)

lemma Reads.awaited_of_ne_nil {s last : State} {ts : List Token} {stack : List Pending}
    (h : Reads s ts last) (hlast : last = wanting stack) (hne : ts ≠ []) :
    awaited ts = some (context stack) := by
  induction h with
  | refl s => exact absurd rfl hne
  | @head s next last t ts hstep hs ih =>
      cases ts with
      | nil =>
          cases hs
          exact hstep.opens hlast
      | cons u us =>
          rw [awaited, List.getLast?_cons_cons]
          exact ih hlast (List.cons_ne_nil _ _)

/-- The construct that waits is the one that the last token opened. -/
theorem Reads.awaited {ts : List Token} {stack : List Pending}
    (h : Reads (wanting []) ts (wanting stack)) : awaited ts = some (context stack) := by
  cases ts with
  | nil =>
      cases h
      rfl
  | cons t ts => exact h.awaited_of_ne_nil rfl (List.cons_ne_nil _ _)

/-! ## The context of an error -/

/-- Where the context of an error at token `k` comes from. -/
structure ContextOf (ts : List Token) (k : Nat) (err : ParseError) : Prop where
  /-- A token that is no operand: the construct that waits for the operand. -/
  operand : ∀ found, err.kind = .expectedOperand found →
    (∃ t, ts[k]? = some t ∧ t.describe = found ∧ err.span = t.span) ∧
      awaited (ts.take k) = some err.context
  /-- The end in the place of an operand: the construct that waits for the operand. -/
  operand_end : err.kind = .unexpectedEndOfInput →
    k = ts.length ∧ awaited (ts.take k) = some err.context
  unclosed : err.kind = .unclosedParen → err.context = .grouping
  unmatched : err.kind = .unmatchedCloseParen → err.context = .effect
  trailing : ∀ found, err.kind = .trailingTokens found → err.context = .effect
  empty : err.kind = .emptyInput → err.context = .effect

lemma Refusal.contextOf {ts : List Token} {k : Nat} {err : ParseError} (h : Refusal ts k err) :
    ContextOf ts k err := by
  cases h with
  | empty hnil => constructor <;> simp [ParseError.emptyInput]
  | operand hreads ht =>
      constructor <;> simp [ParseError.expectedOperand, ht, hreads.awaited,
        ParseError.context_climb]
  | operandEnd hreads hend =>
      constructor <;> simp [ParseError.unexpectedEndOfInput, ← hend, hreads.awaited,
        ParseError.context_climb]
  | unclosed hreads hclose =>
      constructor <;> simp [ParseError.unclosedParen, ParseError.context_climb, State.context,
        Pending.context]
  | unmatched hreads hclosed ht hright => constructor <;> simp [ParseError.unmatchedCloseParen]
  | trailing hreads hclosed ht hright => constructor <;> simp [ParseError.trailingTokens]

/-- **The innermost context wins, at any depth.**  An error in the place of an operand has the
context of the construct that the token in front of it opened, or that of a whole effect if there
is no such token; a group that is not closed is blamed on the group; all other errors are those of
a whole effect. -/
theorem parse_error_context {ts : List Token} {err : ParseError} (h : parse ts = .error err) :
    ∃ k, IsGreatest {m | m ≤ ts.length ∧ Viable (ts.take m)} k ∧ ContextOf ts k err := by
  obtain ⟨k, hk, hrefusal⟩ := refusal_of_parse_error h
  exact ⟨k, hk, hrefusal.contextOf⟩

/-- In `(A => (B += ++` two groups, a conditional and an assignment are waiting. -/
theorem parse_error_context_nested :
    ∃ ts err, ts = [.bare (.paren .left), .bare (.name "A"), .bare (.operator "=>"),
        .bare (.paren .left), .bare (.name "B"), .bare (.operator "+="),
        .bare (.operator "++")] ∧
      parse ts = .error err ∧ err.kind = .expectedOperand "operator `++`" ∧
      err.context = .assignment ∧
      ∃ k, IsGreatest {m | m ≤ ts.length ∧ Viable (ts.take m)} k ∧ ContextOf ts k err :=
  ⟨_, _, rfl, rfl, rfl, rfl, parse_error_context rfl⟩

end Grammar

end EffectLang
