import EffectLang.Expr.Reading
import EffectLang.Grammar.Parse
import EffectLang.Proofs.Token.Kind

/-!
# Runs of the automaton

Everything that is proved about parsing goes through two relations, so that no later proof opens
the automaton itself.

* `Step` lists what one token can do to a state, with one constructor for each move.
  `step_eq_ok_iff` says that these are all the moves there are.
* `Reads s ts last` says that the tokens `ts` lead from `s` to `last` without a fault.
  `parse_eq_ok_iff_reads` says that a list of tokens is an effect exactly when it leads from the
  start to a state that can finish.

**No token is lost.**  `State.tokens` spells out a state: the tokens of its stack, outermost
construct first, and then those of the operand it holds.  Every move adds its token at the end
(`Step.tokens`), so a state amounts to the tokens that were read, in order (`Reads.tokens`).
-/

namespace EffectLang

namespace Grammar

open Pending State

/-! ## Moves -/

/-- What a token can do to a state. -/
inductive Step : State → Token → State → Prop
  | opening {stack : List Pending} {t : Token} (ht : t.kind = .paren .left) :
      Step (wanting stack) t (wanting (group t :: stack))
  | atom {stack : List Pending} {t : Token} (ht : t.isAtom = true) :
      Step (wanting stack) t (receive (.atom t) stack)
  | increment {e : Expr} {stack : List Pending} {t : Token}
      (ht : t.operatorClass? = some .postfixed) :
      Step (holding true e stack) t (holding false (.increment e t) stack)
  | assignment {e : Expr} {stack : List Pending} {t : Token}
      (ht : t.operatorClass? = some .assignment) :
      Step (holding true e stack) t (wanting (update e t :: stack))
  | conditional {primary : Bool} {e : Expr} {stack : List Pending} {t : Token}
      (ht : t.operatorClass? = some .conditional) :
      Step (holding primary e stack) t (wanting (guard e t :: stack))
  | chaining {primary : Bool} {e link : Expr} {stack outer : List Pending} {t : Token}
      (ht : t.operatorClass? = some .chaining) (hc : closeGuards e stack = (link, outer)) :
      Step (holding primary e stack) t (wanting (chain link t :: outer))
  | closing {primary : Bool} {e inner : Expr} {stack outer : List Pending} {opening t : Token}
      (ht : t.kind = .paren .right) (hc : closeAll e stack = (inner, group opening :: outer)) :
      Step (holding primary e stack) t (receive (.grouping opening inner t) outer)

/-- A move is a step. -/
lemma step_of_step {s next : State} {t : Token} (h : Step s t next) : s.step t = .ok next := by
  cases h with
  | opening ht => simp [State.step, Token.isParen_iff, ht]
  | atom ht =>
      have hp : t.isParen .left = false := by
        cases hk : t.kind <;> simp_all [Token.isAtom, TokenKind.isAtom, Token.isParen, Token.paren?]
      simp [State.step, ht, hp]
  | increment ht => simp [State.step, ht]
  | assignment ht => simp [State.step, ht]
  | conditional ht => simp [State.step, ht]
  | chaining ht hc => simp [State.step, ht, hc]
  | closing ht hc =>
      simp [State.step, Token.operatorClass?_of_paren ht, close, Token.isParen_iff, ht, hc]

/-- To close a group is a move. -/
lemma step_of_close {t : Token} {primary : Bool} {e : Expr} {stack : List Pending} {next : State}
    (h : close t e stack = .ok next) : Step (holding primary e stack) t next := by
  unfold close at h
  split at h
  · rename_i ht
    split at h
    · rename_i inner opening outer hc
      cases h
      exact .closing (Token.isParen_iff.1 ht) hc
    · cases h
  · cases h

/-- The moves are the steps of the automaton, and there are no others. -/
theorem step_eq_ok_iff {s next : State} {t : Token} : s.step t = .ok next ↔ Step s t next := by
  refine ⟨fun h => ?_, step_of_step⟩
  cases s with
  | wanting stack =>
      simp only [State.step] at h
      split at h
      · rename_i ht
        cases h
        exact .opening (Token.isParen_iff.1 ht)
      · split at h
        · rename_i ht
          cases h
          exact .atom ht
        · cases h
  | holding primary e stack =>
      simp only [State.step] at h
      split at h
      · rename_i ht
        cases primary <;> cases h
        exact .increment ht
      · rename_i ht
        cases primary <;> cases h
        exact .assignment ht
      · rename_i ht
        cases h
        exact .conditional ht
      · rename_i ht
        cases h
        exact .chaining ht rfl
      · exact step_of_close h

/-! ## Runs -/

/-- The tokens lead from the first state to the last one. -/
inductive Reads : State → List Token → State → Prop
  | refl (s : State) : Reads s [] s
  | head {s next last : State} {t : Token} {ts : List Token} (h : Step s t next)
      (hs : Reads next ts last) : Reads s (t :: ts) last

lemma Reads.single {s next : State} {t : Token} (h : Step s t next) : Reads s [t] next :=
  .head h (.refl next)

/-- Runs may be joined. -/
lemma Reads.trans {s mid last : State} {ts us : List Token} (h : Reads s ts mid)
    (h' : Reads mid us last) : Reads s (ts ++ us) last := by
  induction h with
  | refl s => exact h'
  | head hstep _ ih => exact .head hstep (ih h')

/-- A run succeeds exactly if the tokens lead to a state that can finish. -/
lemma run_eq_ok_iff {s : State} (position : Nat) {ts : List Token} {e : Expr} :
    s.run position ts = .ok e ↔ ∃ last, Reads s ts last ∧ last.finish = .ok e := by
  induction ts generalizing s position with
  | nil =>
      constructor
      · intro h
        refine ⟨s, .refl s, ?_⟩
        unfold State.run at h
        split at h
        · rename_i e' he
          cases h
          exact he
        · cases h
      · rintro ⟨last, hs, hf⟩
        cases hs
        simp [State.run, hf]
  | cons t ts ih =>
      constructor
      · intro h
        unfold State.run at h
        split at h
        · rename_i next hstep
          obtain ⟨last, hs, hf⟩ := (ih _).1 h
          exact ⟨last, .head (step_eq_ok_iff.1 hstep) hs, hf⟩
        · cases h
      · rintro ⟨last, hs, hf⟩
        cases hs with
        | head hstep hs =>
            simp only [State.run, step_of_step hstep]
            exact (ih _).2 ⟨last, hs, hf⟩

/-- A run goes on from the state that the first tokens lead to. -/
lemma Reads.run_append {s last : State} {ts : List Token} (h : Reads s ts last) (position : Nat)
    (us : List Token) : s.run position (ts ++ us) = last.run (position + ts.length) us := by
  induction h generalizing position with
  | refl s => rfl
  | head hstep _ ih =>
      simp only [List.cons_append, State.run, step_of_step hstep, ih, List.length_cons]
      rw [Nat.add_right_comm, Nat.add_assoc]

lemma parse_eq_run {ts : List Token} (hne : ts ≠ []) :
    parse ts = ((wanting []).run 0 ts).mapError fun found => found.1.error ⟨ts, found.2⟩ := by
  cases ts with
  | nil => exact absurd rfl hne
  | cons t ts =>
      simp only [parse]
      cases (wanting []).run 0 (t :: ts) <;> rfl

/-- Tokens are an effect exactly if they lead from the start to a state that can finish. -/
theorem parse_eq_ok_iff_reads {ts : List Token} {e : Expr} :
    parse ts = .ok e ↔ ∃ last, Reads (wanting []) ts last ∧ last.finish = .ok e := by
  rw [← run_eq_ok_iff 0]
  cases ts with
  | nil => simp [parse, State.run, State.finish]
  | cons t ts =>
      simp only [parse]
      split
      · rename_i e' h
        rw [h]
        simp
      · rename_i fault position h
        rw [h]
        simp

/-! ## Tokens -/

/-- The tokens that a pending construct began with. -/
def Pending.tokens : Pending → List Token
  | group opening => [opening]
  | chain first operator => first.tokens ++ [operator]
  | guard condition operator => condition.tokens ++ [operator]
  | update target operator => target.tokens ++ [operator]

/-- The tokens of a stack in the order in which they were read. -/
def Pending.stackTokens : List Pending → List Token
  | [] => []
  | p :: stack => stackTokens stack ++ p.tokens

/-- The tokens that a state amounts to. -/
def State.tokens : State → List Token
  | wanting stack => stackTokens stack
  | holding _ e stack => stackTokens stack ++ e.tokens

lemma tokens_closeGuards (e : Expr) (stack : List Pending) :
    stackTokens (closeGuards e stack).2 ++ (closeGuards e stack).1.tokens =
      stackTokens stack ++ e.tokens := by
  fun_induction closeGuards e stack with
  | case1 e condition operator stack ih =>
      rw [ih]
      simp [stackTokens, Pending.tokens, Expr.tokens_conditional]
  | case2 e stack => rfl

/-- To complete constructs changes no token. -/
lemma tokens_closeAll (e : Expr) (stack : List Pending) :
    stackTokens (closeAll e stack).2 ++ (closeAll e stack).1.tokens =
      stackTokens stack ++ e.tokens := by
  fun_induction closeAll e stack with
  | case1 e condition operator stack ih =>
      rw [ih]
      simp [stackTokens, Pending.tokens, Expr.tokens_conditional]
  | case2 e first operator stack ih =>
      rw [ih]
      simp [stackTokens, Pending.tokens, Expr.tokens_chaining]
  | case3 e stack => rfl

lemma tokens_receive (e : Expr) (stack : List Pending) :
    (receive e stack).tokens = stackTokens stack ++ e.tokens := by
  unfold receive
  split
  · simp [State.tokens, stackTokens, Pending.tokens, Expr.tokens_assignment]
  · rfl

/-- Every move puts its token behind those read before. -/
theorem Step.tokens {s next : State} {t : Token} (h : Step s t next) :
    next.tokens = s.tokens ++ [t] := by
  cases h with
  | opening ht => rfl
  | atom ht => rw [tokens_receive, Expr.tokens_atom]; rfl
  | increment ht => simp [State.tokens, Expr.tokens_increment]
  | assignment ht => simp [State.tokens, stackTokens, Pending.tokens]
  | conditional ht => simp [State.tokens, stackTokens, Pending.tokens]
  | @chaining primary e link stack outer t ht hc =>
      have h := tokens_closeGuards e stack
      rw [hc] at h
      simp only [State.tokens, stackTokens, Pending.tokens, ← List.append_assoc]
      rw [h]
  | @closing primary e inner stack outer opening t ht hc =>
      have h := tokens_closeAll e stack
      rw [hc] at h
      rw [tokens_receive, Expr.tokens_grouping, State.tokens, ← h]
      simp [stackTokens, Pending.tokens]

/-- A run adds its tokens at the end. -/
lemma Reads.tokens {s last : State} {ts : List Token} (h : Reads s ts last) :
    last.tokens = s.tokens ++ ts := by
  induction h with
  | refl s => simp
  | head hstep _ ih => rw [ih, hstep.tokens]; simp

end Grammar

end EffectLang
