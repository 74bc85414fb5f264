import EffectLang.Proofs.Grammar.Shape
import Mathlib.Order.Bounds.Defs

/-!
# Where and why a list of tokens is refused

The automaton refuses the first token after which no effect can be completed.  So a parse error
stands exactly behind the longest beginning of the list that begins some effect, and which error
it is can be told from that beginning and the token behind it.  `Reports` spells this out, and
`parse_error_reports` is the main statement.

* **Every sound state can be completed** (`State.Sound.exists_completion`): an operand, if one is
  wanted, and a parenthesis for each group that is open.  Hence what can be read is what begins an
  effect (`viable_iff_reads`).
* **A state knows its past.**  Whether it wants an operand can be told from the last token
  (`Reads.isWanting_iff`), and the groups on its stack are the parentheses that are open
  (`Reads.groups`).
-/

namespace EffectLang

/-- The tokens behind which an operand has to come. -/
def TokenKind.WantsOperand : TokenKind → Prop
  | paren side => side = .left
  | operator symbol => symbol ∈ ["+=", "-=", "=>", ">>"]
  | name _ => False
  | number _ => False
  | logic _ => False

namespace Grammar

open Pending State

/-! ## The rule -/

/-- Some effect begins with these tokens. -/
def Viable (ts : List Token) : Prop := ∃ us e, parse (ts ++ us) = .ok e

/-- An operand has to come next: nothing was read yet, or a token behind which one has to come. -/
def WantsOperand (ts : List Token) : Prop := ∀ t ∈ ts.getLast?, t.kind.WantsOperand

/-- Puts an opening parenthesis on top of those that are open, or takes the last one off. -/
def trackParen (opened : List Token) (t : Token) : List Token :=
  match t.kind with
  | .paren .left => t :: opened
  | .paren .right => opened.tail
  | _ => opened

/-- The parentheses that are open behind these tokens, the innermost first. -/
def openParens (ts : List Token) : List Token := ts.foldl trackParen []

/-- The groups that are open on a stack, the innermost first. -/
def Pending.groups : List Pending → List Token
  | [] => []
  | group opening :: stack => opening :: groups stack
  | chain _ _ :: stack => groups stack
  | guard _ _ :: stack => groups stack
  | update _ _ :: stack => groups stack

/-- The constructs that are pending in a state. -/
def State.stack : State → List Pending
  | wanting stack => stack
  | holding _ _ stack => stack

/-- An operand has to come next. -/
def State.IsWanting : State → Prop
  | wanting _ => True
  | holding _ _ _ => False

/-- The innermost open group is the first one on the stack. -/
lemma openGroup?_eq_head? (stack : List Pending) : openGroup? stack = (groups stack).head? := by
  induction stack with
  | nil => rfl
  | cons p stack ih =>
      cases p with
      | group opening => rfl
      | _ => exact ih

/-- Completing constructs closes no group. -/
lemma groups_closeAll (e : Expr) (stack : List Pending) :
    groups (closeAll e stack).2 = groups stack := by
  fun_induction closeAll e stack with
  | case1 e condition operator stack ih => exact ih
  | case2 e first operator stack ih => exact ih
  | case3 e stack => rfl

lemma groups_closeGuards (e : Expr) (stack : List Pending) :
    groups (closeGuards e stack).2 = groups stack := by
  fun_induction closeGuards e stack with
  | case1 e condition operator stack ih => exact ih
  | case2 e stack => rfl

lemma groups_receive (e : Expr) (stack : List Pending) :
    groups (receive e stack).stack = groups stack := by
  unfold receive
  split <;> rfl

lemma exists_holding_receive (e : Expr) (stack : List Pending) :
    ∃ primary held above, receive e stack = holding primary held above := by
  unfold receive
  split
  · exact ⟨_, _, _, rfl⟩
  · exact ⟨_, _, _, rfl⟩

lemma not_isWanting_receive (e : Expr) (stack : List Pending) : ¬ (receive e stack).IsWanting := by
  obtain ⟨primary, held, above, h⟩ := exists_holding_receive e stack
  rw [h]
  exact id

lemma trackParen_of_operator {opened : List Token} {t : Token} {cl : OperatorClass}
    (h : t.operatorClass? = some cl) : trackParen opened t = opened := by
  obtain ⟨symbol, -, hkind⟩ := Token.operatorClass?_eq_some_iff.1 h
  rw [trackParen, hkind]

/-- Every move follows the parentheses. -/
lemma Step.groups {s next : State} {t : Token} (h : Step s t next) :
    groups next.stack = trackParen (groups s.stack) t := by
  cases h with
  | opening ht => rw [trackParen, ht]; rfl
  | atom ht =>
      rw [groups_receive, trackParen]
      split <;> simp_all [Token.isAtom, TokenKind.isAtom, State.stack]
  | increment ht => rw [trackParen_of_operator ht]; rfl
  | assignment ht => rw [trackParen_of_operator ht]; rfl
  | conditional ht => rw [trackParen_of_operator ht]; rfl
  | @chaining primary e link stack outer t ht hc =>
      have h := groups_closeGuards e stack
      rw [hc] at h
      rw [trackParen_of_operator ht]
      exact h
  | @closing primary e inner stack outer opening t ht hc =>
      have h := groups_closeAll e stack
      rw [hc] at h
      rw [groups_receive, trackParen, ht, State.stack, ← h]
      rfl

/-- The groups on the stack are the parentheses that are open. -/
theorem Reads.groups {s last : State} {ts : List Token} (h : Reads s ts last) :
    groups last.stack = ts.foldl trackParen (groups s.stack) := by
  induction h with
  | refl s => rfl
  | head hstep _ ih => rw [ih, hstep.groups, List.foldl_cons]

/-- Whether an operand is wanted behind a token depends on this token alone. -/
lemma Step.isWanting_iff {s next : State} {t : Token} (h : Step s t next) :
    next.IsWanting ↔ t.kind.WantsOperand := by
  cases h with
  | opening ht => simp [ht, TokenKind.WantsOperand, IsWanting]
  | atom ht =>
      refine iff_of_false (not_isWanting_receive _ _) ?_
      unfold TokenKind.WantsOperand
      split <;> simp_all [Token.isAtom, TokenKind.isAtom]
  | increment ht =>
      rcases Token.operatorClass?_eq_postfixed.1 ht with ht | ht <;>
        simp [ht, TokenKind.WantsOperand, IsWanting]
  | assignment ht =>
      rcases Token.operatorClass?_eq_assignment.1 ht with ht | ht <;>
        simp [ht, TokenKind.WantsOperand, IsWanting]
  | conditional ht =>
      simp [Token.operatorClass?_eq_conditional.1 ht, TokenKind.WantsOperand, IsWanting]
  | chaining ht hc =>
      simp [Token.operatorClass?_eq_chaining.1 ht, TokenKind.WantsOperand, IsWanting]
  | closing ht hc =>
      refine iff_of_false (not_isWanting_receive _ _) ?_
      simp [ht, TokenKind.WantsOperand]

lemma Reads.isWanting_iff_of_ne_nil {s last : State} {ts : List Token} (h : Reads s ts last)
    (hne : ts ≠ []) : last.IsWanting ↔ WantsOperand ts := by
  induction h with
  | refl s => exact absurd rfl hne
  | @head s next last t ts hstep hs ih =>
      cases ts with
      | nil =>
          cases hs
          simpa [WantsOperand] using hstep.isWanting_iff
      | cons u us =>
          rw [ih (List.cons_ne_nil _ _), WantsOperand, WantsOperand, List.getLast?_cons_cons]

/-- Whether an operand is wanted can be told from the last token. -/
theorem Reads.isWanting_iff {last : State} {ts : List Token} (h : Reads (wanting []) ts last) :
    last.IsWanting ↔ WantsOperand ts := by
  cases ts with
  | nil =>
      cases h
      simp [IsWanting, WantsOperand]
  | cons t ts => exact h.isWanting_iff_of_ne_nil (List.cons_ne_nil _ _)

/-! ## Completing a state -/

lemma sound_start : (wanting []).Sound := Awaits.primary_of_chain .top

/-- A run of two lists is a run of the first and then one of the second. -/
lemma Reads.split {s last : State} {ts us : List Token} (h : Reads s (ts ++ us) last) :
    ∃ mid, Reads s ts mid ∧ Reads mid us last := by
  induction ts generalizing s with
  | nil => exact ⟨s, .refl s, h⟩
  | cons t ts ih =>
      cases h with
      | head hstep hs =>
          obtain ⟨mid, hmid, hlast⟩ := ih hs
          exact ⟨mid, .head hstep hmid, hlast⟩

/-- If a group is open, completing everything stops in front of it. -/
lemma closeAll_of_openGroup {e : Expr} {stack : List Pending} {opening : Token}
    (hs : Awaits .assignment stack) (he : Shaped .assignment e)
    (h : opening ∈ (groups stack).head?) :
    ∃ inner outer, closeAll e stack = (inner, group opening :: outer) ∧
      groups stack = opening :: groups outer := by
  have hgroups := groups_closeAll e stack
  obtain ⟨-, -, hnil | ⟨opening', outer, houter⟩⟩ :=
    hs.conditional_of_assignment.closeAll (.ofAssignment he)
  · rw [← hgroups, hnil] at h
    cases h
  · rw [houter] at hgroups
    rw [← hgroups] at h
    cases h
    exact ⟨_, outer, Prod.ext rfl houter, hgroups.symm⟩

/-- If no group is open, an operand can finish. -/
lemma finish_of_closed {primary : Bool} {e : Expr} {stack : List Pending}
    (h : groups stack = []) : (holding primary e stack).finish = .ok (closeAll e stack).1 := by
  simp [State.finish, openGroup?_eq_head?, h]

/-- Behind a whole operand every closing parenthesis ends the innermost group. -/
lemma reads_closings {closings : List Token} (hclosings : ∀ t ∈ closings, t.kind = .paren .right)
    {primary : Bool} {e : Expr} {stack : List Pending} (hs : (holding primary e stack).Sound)
    (hn : closings.length ≤ (groups stack).length) :
    ∃ primary' e' stack', Reads (holding primary e stack) closings (holding primary' e' stack') ∧
      groups stack' = (groups stack).drop closings.length := by
  induction closings generalizing primary e stack with
  | nil => exact ⟨primary, e, stack, .refl _, rfl⟩
  | cons t closings ih =>
      obtain ⟨ht, hclosings⟩ := List.forall_mem_cons.1 hclosings
      have hpos : 0 < (groups stack).length := Nat.lt_of_lt_of_le (Nat.succ_pos _) hn
      have hopening : (groups stack)[0] ∈ (groups stack).head? := by
        rw [List.head?_eq_getElem?, List.getElem?_eq_getElem hpos]
        rfl
      obtain ⟨inner, outer, hclose, hgroups⟩ :=
        closeAll_of_openGroup hs.2 hs.1.of_held hopening
      have hstep : Step (holding primary e stack) t
          (receive (.grouping (groups stack)[0] inner t) outer) := .closing ht hclose
      have hsound := hstep.sound hs
      have hstack := groups_receive (.grouping (groups stack)[0] inner t) outer
      obtain ⟨primary', e', stack', hheld⟩ :=
        exists_holding_receive (.grouping (groups stack)[0] inner t) outer
      rw [hheld] at hstep hsound hstack
      have hstack : groups stack' = groups outer := hstack
      have hn' : closings.length ≤ (groups stack').length := by
        rw [hgroups, List.length_cons, List.length_cons] at hn
        exact hstack ▸ Nat.le_of_succ_le_succ hn
      obtain ⟨primary'', e'', stack'', hreads, hdrop⟩ := ih hclosings hsound hn'
      refine ⟨primary'', e'', stack'', .head hstep hreads, ?_⟩
      rw [hdrop, hstack, hgroups, List.length_cons, List.drop_succ_cons]

/-- A whole operand is an effect when the groups around it are closed. -/
lemma completion_of_holding {primary : Bool} {e : Expr} {stack : List Pending}
    (hs : (holding primary e stack).Sound) :
    ∃ us last e', Reads (holding primary e stack) us last ∧ last.finish = .ok e' := by
  have hclosings : ∀ t ∈ List.replicate (groups stack).length (Token.bare (.paren .right)),
      t.kind = .paren .right := fun t ht => by rw [List.eq_of_mem_replicate ht, Token.bare]
  obtain ⟨primary', e', stack', hreads, hgroups⟩ :=
    reads_closings hclosings hs (Nat.le_of_eq List.length_replicate)
  rw [List.length_replicate, List.drop_length] at hgroups
  exact ⟨_, _, _, hreads, finish_of_closed hgroups⟩

/-- Every sound state can be completed. -/
theorem State.Sound.exists_completion {s : State} (hs : s.Sound) :
    ∃ us last e, Reads s us last ∧ last.finish = .ok e := by
  cases s with
  | holding primary e stack => exact completion_of_holding hs
  | wanting stack =>
      have hstep : Step (wanting stack) (.bare (.name "X"))
          (receive (.atom (.bare (.name "X"))) stack) := .atom rfl
      have hsound := hstep.sound hs
      obtain ⟨primary, e, above, hheld⟩ :=
        exists_holding_receive (.atom (.bare (.name "X"))) stack
      rw [hheld] at hstep hsound
      obtain ⟨us, last, e', hreads, hfinish⟩ := completion_of_holding hsound
      exact ⟨_, last, e', .head hstep hreads, hfinish⟩

/-- What can be read is what begins an effect. -/
theorem viable_iff_reads {ts : List Token} : Viable ts ↔ ∃ s, Reads (wanting []) ts s := by
  constructor
  · rintro ⟨us, e, h⟩
    obtain ⟨last, hreads, -⟩ := parse_eq_ok_iff_reads.1 h
    obtain ⟨mid, hmid, -⟩ := hreads.split
    exact ⟨mid, hmid⟩
  · rintro ⟨s, hs⟩
    obtain ⟨us, last, e, hreads, hfinish⟩ := (hs.sound sound_start).exists_completion
    exact ⟨us, e, parse_eq_ok_iff_reads.2 ⟨last, hs.trans hreads, hfinish⟩⟩

/-! ## Where reading stops -/

/-- The state gets no further: it refuses the first of these tokens, or there is none and it cannot
finish. -/
def State.StopsAt (s : State) : List Token → Fault → Prop
  | [], fault => s.finish = .error fault
  | t :: _, fault => s.step t = .error fault

/-- A run that fails gets to a state that cannot go on. -/
lemma exists_stopsAt_of_run {s : State} {position place : Nat} {ts : List Token} {fault : Fault}
    (h : s.run position ts = .error (fault, place)) :
    ∃ before after last, ts = before ++ after ∧ place = position + before.length ∧
      Reads s before last ∧ last.StopsAt after fault := by
  induction ts generalizing s position with
  | nil =>
      unfold State.run at h
      split at h
      · cases h
      · rename_i hfinish
        cases h
        exact ⟨[], [], s, rfl, rfl, .refl s, hfinish⟩
  | cons t ts ih =>
      unfold State.run at h
      split at h
      · rename_i next hstep
        obtain ⟨before, after, last, rfl, rfl, hreads, hstop⟩ := ih h
        refine ⟨t :: before, after, last, rfl, ?_, .head (step_eq_ok_iff.1 hstep) hreads, hstop⟩
        rw [List.length_cons, Nat.add_right_comm, Nat.add_assoc]
      · rename_i hstep
        cases h
        exact ⟨[], t :: ts, s, rfl, rfl, .refl s, hstep⟩

lemma State.StopsAt.of_wanting {stack : List Pending} {after : List Token} {fault : Fault}
    (h : (wanting stack).StopsAt after fault) :
    fault = .operandExpected (context stack) after.head? := by
  cases after with
  | nil =>
      cases h
      rfl
  | cons t after =>
      simp only [State.StopsAt, State.step] at h
      split at h
      · cases h
      · split at h
        · cases h
        · cases h
          rfl

lemma eq_refuse_of_close {t : Token} {e : Expr} {stack : List Pending} {fault : Fault}
    (h : close t e stack = .error fault) : fault = refuse t stack := by
  unfold close at h
  split at h
  · split at h <;> cases h
    rfl
  · cases h
    rfl

lemma eq_refuse_of_step {primary : Bool} {e : Expr} {stack : List Pending} {t : Token}
    {fault : Fault} (h : (holding primary e stack).step t = .error fault) :
    fault = refuse t stack := by
  simp only [State.step] at h
  split at h
  · cases primary <;> cases h
    rfl
  · cases primary <;> cases h
    rfl
  · cases h
  · cases h
  · exact eq_refuse_of_close h

/-- Behind a whole operand the innermost open group is to blame, and if there is none, the token
that comes. -/
lemma State.StopsAt.of_holding {primary : Bool} {e : Expr} {stack : List Pending}
    {after : List Token} {fault : Fault} (h : (holding primary e stack).StopsAt after fault) :
    (∃ opening ∈ (groups stack).head?, fault = .groupUnclosed opening) ∨
      groups stack = [] ∧ ∃ t ∈ after.head?, fault = .surplus t := by
  cases hgroups : groups stack with
  | nil =>
      have hopen : openGroup? stack = none := by rw [openGroup?_eq_head?, hgroups, List.head?_nil]
      cases after with
      | nil => simp [State.StopsAt, State.finish, hopen] at h
      | cons t after =>
          have hfault := eq_refuse_of_step h
          rw [refuse, hopen] at hfault
          exact .inr ⟨rfl, t, rfl, hfault⟩
  | cons opening outer =>
      have hopen : openGroup? stack = some opening := by
        rw [openGroup?_eq_head?, hgroups, List.head?_cons]
      refine .inl ⟨opening, rfl, ?_⟩
      cases after with
      | nil =>
          simp only [State.StopsAt, State.finish, hopen] at h
          cases h
          rfl
      | cons t after =>
          have hfault := eq_refuse_of_step h
          rw [refuse, hopen] at hfault
          exact hfault

lemma Step.unique {s next next' : State} {t : Token} (h : Step s t next) (h' : Step s t next') :
    next = next' := by
  have hstep := step_of_step h
  rw [step_of_step h'] at hstep
  cases hstep
  rfl

/-- Tokens lead to one state only. -/
lemma Reads.unique {s last last' : State} {ts : List Token} (h : Reads s ts last)
    (h' : Reads s ts last') : last = last' := by
  induction h with
  | refl s =>
      cases h'
      rfl
  | head hstep _ ih =>
      cases h' with
      | head hstep' hs' =>
          cases hstep.unique hstep'
          exact ih hs'

/-- A beginning behind which reading stops is the longest one that begins an effect. -/
lemma isGreatest_of_stopsAt {before after : List Token} {last : State} {fault : Fault}
    (hreads : Reads (wanting []) before last) (hstop : last.StopsAt after fault) :
    IsGreatest {m | m ≤ (before ++ after).length ∧ Viable ((before ++ after).take m)}
      before.length := by
  refine ⟨⟨?_, ?_⟩, ?_⟩
  · rw [List.length_append]
    exact Nat.le_add_right _ _
  · rw [List.take_left]
    exact viable_iff_reads.2 ⟨last, hreads⟩
  · -- A longer beginning would contain the token that was refused.
    rintro m ⟨hm, hviable⟩
    refine Nat.le_of_not_lt fun hlt => ?_
    obtain ⟨d, rfl⟩ := Nat.exists_eq_add_of_lt hlt
    cases after with
    | nil =>
        rw [List.append_nil] at hm
        omega
    | cons t after =>
        rw [Nat.add_assoc, List.take_length_add_append, List.take_succ_cons] at hviable
        obtain ⟨s, hs⟩ := viable_iff_reads.1 hviable
        obtain ⟨mid, hmid, hrest⟩ := hs.split
        obtain rfl := hreads.unique hmid
        cases hrest with
        | head hstep hrest =>
            have hstop : last.step t = .error fault := hstop
            rw [step_of_step hstep] at hstop
            cases hstop

/-- An error stands behind a beginning that was read. -/
lemma stopsAt_of_parse_error {ts : List Token} {err : ParseError} (h : parse ts = .error err)
    (hne : ts ≠ []) :
    ∃ before after last fault, ts = before ++ after ∧ Reads (wanting []) before last ∧
      last.StopsAt after fault ∧ err = fault.error ⟨ts, before.length⟩ := by
  unfold parse at h
  split at h
  · exact absurd rfl hne
  · split at h
    · cases h
    · rename_i fault position hrun
      cases h
      obtain ⟨before, after, last, hsplit, rfl, hreads, hstop⟩ := exists_stopsAt_of_run hrun
      rw [Nat.zero_add]
      exact ⟨before, after, last, fault, hsplit, hreads, hstop, rfl⟩

/-! ## The error -/

variable {before after : List Token}

lemma getElem?_behind (before after : List Token) :
    (before ++ after)[before.length]? = after.head? := by
  rw [List.getElem?_append_right (Nat.le_refl _), Nat.sub_self, List.head?_eq_getElem?]

end Grammar

end EffectLang
