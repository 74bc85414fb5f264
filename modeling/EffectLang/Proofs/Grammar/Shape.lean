import EffectLang.Proofs.Grammar.Run

/-!
# The parser accepts exactly its grammar

`Shaped` is the grammar as a family of sets of trees, one for each level.  The main statement is
`parse_eq_ok_iff_shaped`: a list of tokens parses to a tree exactly when the tree is chain-shaped
and its tokens are that list.  So the grammar gives no list two trees, and the parser misses none.

**The stack as a place.**  A stack of pending constructs is a tree with one place left open.
`Awaits lv stack` says that everything around the place has its shape, and that an expression of
level `lv` may stand there.  A state is sound when its place takes what it holds
(`State.Sound`); every move keeps that (`Step.sound`), and this is one direction.

**Reading a tree.**  The other direction is an induction on the shape, for any stack below.  What
a whole expression leaves behind depends on its level: after a primary the automaton holds it,
but a conditional may still be spread over the stack, because its last operand could carry more.
`Reached` says of each level what has been reached, and `reads_of_shaped` that it is reached.
-/

namespace EffectLang

namespace Grammar

open Pending State

/-- The levels of the grammar, tightest first. -/
inductive Level where
  | primary
  | assignment
  | conditional
  | chain

/-- The trees of each level.  A level takes in the trees of the level before it. -/
inductive Shaped : Level → Expr → Prop
  | atom {t : Token} (ht : t.isAtom = true) : Shaped .primary (.atom t)
  | grouping {opening closing : Token} {inner : Expr} (ho : opening.kind = .paren .left)
      (hi : Shaped .chain inner) (hc : closing.kind = .paren .right) :
      Shaped .primary (.grouping opening inner closing)
  | ofPrimary {e : Expr} (h : Shaped .primary e) : Shaped .assignment e
  | increment {operand : Expr} {op : Token} (h : Shaped .primary operand)
      (hop : op.kind = .operator "++" ∨ op.kind = .operator "--") :
      Shaped .assignment (.increment operand op)
  | assignment {target value : Expr} {op : Token} (ht : Shaped .primary target)
      (hop : op.kind = .operator "+=" ∨ op.kind = .operator "-=") (hv : Shaped .primary value) :
      Shaped .assignment (.assignment target op value)
  | ofAssignment {e : Expr} (h : Shaped .assignment e) : Shaped .conditional e
  | conditional {condition effect : Expr} {op : Token} (hc : Shaped .assignment condition)
      (hop : op.kind = .operator "=>") (he : Shaped .conditional effect) :
      Shaped .conditional (.conditional condition op effect)
  | ofConditional {e : Expr} (h : Shaped .conditional e) : Shaped .chain e
  | chaining {first second : Expr} {op : Token} (hf : Shaped .conditional first)
      (hop : op.kind = .operator ">>") (hs : Shaped .chain second) :
      Shaped .chain (.chaining first op second)

/-- A chain of one link, which is an assignment or tighter. -/
lemma Shaped.chain_of_assignment {e : Expr} (h : Shaped .assignment e) : Shaped .chain e :=
  .ofConditional (.ofAssignment h)

/-- A link has no `>>` at its root. -/
lemma Shaped.ne_chaining {e : Expr} (h : Shaped .conditional e) (first : Expr) (op : Token)
    (second : Expr) : e ≠ .chaining first op second := by
  rintro rfl
  cases h with
  | ofAssignment h =>
      cases h with
      | ofPrimary h => cases h

lemma Shaped.chaining_inv {first second : Expr} {op : Token}
    (h : Shaped .chain (.chaining first op second)) :
    Shaped .conditional first ∧ op.kind = .operator ">>" ∧ Shaped .chain second := by
  cases h with
  | chaining hf hop hs => exact ⟨hf, hop, hs⟩
  | ofConditional h => exact absurd rfl (h.ne_chaining _ _ _)

/-- A chain without `>>` at its root is a single link. -/
lemma Shaped.conditional_of_chain {e : Expr} (h : Shaped .chain e)
    (hne : ∀ first op second, e = .chaining first op second → False) : Shaped .conditional e := by
  cases h with
  | ofConditional h => exact h
  | chaining hf hop hs => exact absurd rfl (hne _ _ _)

lemma Shaped.conditional_inv {condition effect : Expr} {op : Token}
    (h : Shaped .chain (.conditional condition op effect)) :
    Shaped .assignment condition ∧ op.kind = .operator "=>" ∧ Shaped .conditional effect := by
  cases h with
  | ofConditional h =>
      cases h with
      | conditional hc hop he => exact ⟨hc, hop, he⟩
      | ofAssignment h =>
          cases h with
          | ofPrimary h => cases h

/-- A link without `=>` at its root is an assignment or tighter. -/
lemma Shaped.assignment_of_conditional {e : Expr} (h : Shaped .conditional e)
    (hne : ∀ condition op effect, e = .conditional condition op effect → False) :
    Shaped .assignment e := by
  cases h with
  | ofAssignment h => exact h
  | conditional hc hop he => exact absurd rfl (hne _ _ _)

/-! ## Places -/

/-- The place on top of a stack takes expressions of a level.  A place that takes a level takes
the tighter levels too. -/
inductive Awaits : Level → List Pending → Prop
  | top : Awaits .chain []
  | group {opening : Token} {stack : List Pending} (ho : opening.kind = .paren .left)
      (hs : Awaits .primary stack) : Awaits .chain (group opening :: stack)
  | chain {first : Expr} {op : Token} {stack : List Pending} (hf : Shaped .conditional first)
      (hop : op.kind = .operator ">>") (hs : Awaits .chain stack) :
      Awaits .chain (chain first op :: stack)
  | ofChain {stack : List Pending} (h : Awaits .chain stack) : Awaits .conditional stack
  | guard {condition : Expr} {op : Token} {stack : List Pending}
      (hc : Shaped .assignment condition) (hop : op.kind = .operator "=>")
      (hs : Awaits .conditional stack) : Awaits .conditional (guard condition op :: stack)
  | ofConditional {stack : List Pending} (h : Awaits .conditional stack) :
      Awaits .assignment stack
  | ofAssignment {stack : List Pending} (h : Awaits .assignment stack) : Awaits .primary stack
  | update {target : Expr} {op : Token} {stack : List Pending} (ht : Shaped .primary target)
      (hop : op.kind = .operator "+=" ∨ op.kind = .operator "-=") (hs : Awaits .assignment stack) :
      Awaits .primary (update target op :: stack)

namespace Awaits

variable {stack : List Pending}

lemma conditional_of_assignment (h : Awaits .assignment stack) : Awaits .conditional stack := by
  cases h with
  | ofConditional h => exact h

lemma primary_of_conditional (h : Awaits .conditional stack) : Awaits .primary stack :=
  .ofAssignment (.ofConditional h)

lemma primary_of_chain (h : Awaits .chain stack) : Awaits .primary stack :=
  primary_of_conditional (.ofChain h)

/-- A place for an assignment is no place for the value of one. -/
lemma receive_eq (h : Awaits .assignment stack) (e : Expr) :
    receive e stack = holding true e stack := by
  cases h with
  | ofConditional h =>
      cases h with
      | ofChain h => cases h <;> rfl
      | guard hc hop hs => rfl

/-- A place for a chain has no conditional on top. -/
lemma closeGuards_eq (h : Awaits .chain stack) (e : Expr) : closeGuards e stack = (e, stack) := by
  cases h <;> rfl

/-- Completing the conditionals on top of the stack makes a link of a chain. -/
lemma closeGuards {e : Expr} (he : Shaped .conditional e) (h : Awaits .conditional stack) :
    Shaped .conditional (closeGuards e stack).1 ∧ Awaits .chain (closeGuards e stack).2 := by
  fun_induction Pending.closeGuards e stack with
  | case1 e condition operator stack ih =>
      cases h with
      | ofChain h => cases h
      | guard hc hop hs => exact ih (.conditional hc hop he) hs
  | case2 e stack hne =>
      cases h with
      | ofChain h => exact ⟨he, h⟩
      | guard hc hop hs => exact absurd rfl (hne _ _ _)

end Awaits

/-- Completing everything down to a group completes the conditionals on top first. -/
lemma closeAll_closeGuards (e : Expr) (stack : List Pending) :
    closeAll (closeGuards e stack).1 (closeGuards e stack).2 = closeAll e stack := by
  fun_induction closeGuards e stack with
  | case1 e condition operator stack ih => exact ih
  | case2 e stack => rfl

/-- Completing everything makes a chain, which stands in a group or by itself. -/
lemma Awaits.closeAll_of_chain {e : Expr} {stack : List Pending} (he : Shaped .chain e)
    (h : Awaits .chain stack) :
    Shaped .chain (closeAll e stack).1 ∧ Awaits .chain (closeAll e stack).2 ∧
      ((closeAll e stack).2 = [] ∨
        ∃ opening outer, (closeAll e stack).2 = Pending.group opening :: outer) := by
  induction stack generalizing e with
  | nil => exact ⟨he, h, Or.inl rfl⟩
  | cons p stack ih =>
      cases h with
      | group ho hs => exact ⟨he, .group ho hs, Or.inr ⟨_, _, rfl⟩⟩
      | chain hf hop hs => exact ih (.chaining hf hop he) hs

/-- Completing everything makes a chain, from a place for a conditional too. -/
lemma Awaits.closeAll {e : Expr} {stack : List Pending} (he : Shaped .conditional e)
    (h : Awaits .conditional stack) :
    Shaped .chain (closeAll e stack).1 ∧ Awaits .chain (closeAll e stack).2 ∧
      ((closeAll e stack).2 = [] ∨
        ∃ opening outer, (closeAll e stack).2 = Pending.group opening :: outer) := by
  obtain ⟨hlink, houter⟩ := h.closeGuards he
  rw [← closeAll_closeGuards]
  exact Awaits.closeAll_of_chain (.ofConditional hlink) houter

/-! ## From tokens to shapes -/

/-- The level of an operand that the automaton holds. -/
def heldLevel (primary : Bool) : Level := if primary then .primary else .assignment

/-- A state whose parts have their shapes. -/
def State.Sound : State → Prop
  | wanting stack => Awaits .primary stack
  | holding primary e stack => Shaped (heldLevel primary) e ∧ Awaits .assignment stack

lemma Shaped.of_held {primary : Bool} {e : Expr} (h : Shaped (heldLevel primary) e) :
    Shaped .assignment e := by
  cases primary with
  | false => exact h
  | true => exact .ofPrimary h

/-- A primary may be received wherever one may stand. -/
lemma sound_receive {e : Expr} {stack : List Pending} (he : Shaped .primary e)
    (h : Awaits .primary stack) : (receive e stack).Sound := by
  cases h with
  | ofAssignment h =>
      rw [h.receive_eq]
      exact ⟨he, h⟩
  | update ht hop hs => exact ⟨.assignment ht hop he, hs⟩

/-- Every move keeps a state sound. -/
theorem Step.sound {s next : State} {t : Token} (h : Step s t next) (hs : s.Sound) :
    next.Sound := by
  cases h with
  | opening ht => exact Awaits.primary_of_chain (.group ht hs)
  | atom ht => exact sound_receive (.atom ht) hs
  | increment ht => exact ⟨.increment hs.1 (Token.operatorClass?_eq_postfixed.1 ht), hs.2⟩
  | assignment ht => exact .update hs.1 (Token.operatorClass?_eq_assignment.1 ht) hs.2
  | conditional ht =>
      have hop := Token.operatorClass?_eq_conditional.1 ht
      have hplace := hs.2.conditional_of_assignment
      exact Awaits.primary_of_conditional (.guard hs.1.of_held hop hplace)
  | chaining ht hc =>
      have hop := Token.operatorClass?_eq_chaining.1 ht
      have hplace := hs.2.conditional_of_assignment
      obtain ⟨hlink, houter⟩ := hplace.closeGuards (.ofAssignment hs.1.of_held)
      rw [hc] at hlink houter
      exact Awaits.primary_of_chain (.chain hlink hop houter)
  | closing ht hc =>
      have hplace := hs.2.conditional_of_assignment
      obtain ⟨hinner, houter, -⟩ := hplace.closeAll (.ofAssignment hs.1.of_held)
      rw [hc] at hinner houter
      cases houter with
      | group ho houter => exact sound_receive (.grouping ho hinner ht) houter

/-- Every run keeps a state sound. -/
lemma Reads.sound {s last : State} {ts : List Token} (h : Reads s ts last) (hs : s.Sound) :
    last.Sound := by
  induction h with
  | refl s => exact hs
  | head hstep _ ih => exact ih (hstep.sound hs)

/-- Completing everything stops in front of the innermost open group. -/
lemma openGroup?_closeAll (e : Expr) (stack : List Pending) :
    openGroup? (closeAll e stack).2 = openGroup? stack := by
  fun_induction closeAll e stack with
  | case1 e condition operator stack ih => exact ih
  | case2 e first operator stack ih => exact ih
  | case3 e stack => rfl

/-- A sound state finishes with a chain that has all its tokens. -/
lemma State.Sound.finish {s : State} {e : Expr} (hs : s.Sound) (h : s.finish = .ok e) :
    Shaped .chain e ∧ e.tokens = s.tokens := by
  cases s with
  | wanting stack => cases h
  | holding primary held stack =>
      simp only [State.finish] at h
      split at h
      · cases h
      · rename_i hopen
        cases h
        have hplace := hs.2.conditional_of_assignment
        obtain ⟨he, -, hend⟩ := hplace.closeAll (.ofAssignment hs.1.of_held)
        have htokens := tokens_closeAll held stack
        refine ⟨he, ?_⟩
        rcases hend with hnil | ⟨opening, outer, hgroup⟩
        · rw [hnil] at htokens
          exact htokens
        · rw [← openGroup?_closeAll held, hgroup] at hopen
          cases hopen

/-! ## From shapes to tokens -/

/-- What a whole expression of a level amounts to when it has been read on top of a stack. -/
def Reached : Level → Expr → List Pending → State → Prop
  | .primary, e, stack, s => s = receive e stack
  | .assignment, e, stack, s => ∃ primary, s = holding primary e stack
  | .conditional, e, stack, s => ∃ primary last above,
      s = holding primary last above ∧ closeGuards last above = closeGuards e stack
  | .chain, e, stack, s => ∃ primary last above,
      s = holding primary last above ∧ closeAll last above = closeAll e stack

/-- The tokens of a shaped tree are read on top of any stack with a place for it. -/
theorem reads_of_shaped {lv : Level} {e : Expr} (h : Shaped lv e) :
    ∀ stack, Awaits lv stack → ∃ s, Reads (wanting stack) e.tokens s ∧ Reached lv e stack s := by
  induction h with
  | @atom t ht =>
      intro stack _
      rw [Expr.tokens_atom]
      exact ⟨_, .single (.atom ht), rfl⟩
  | @grouping opening closing inner ho _ hc ih =>
      intro stack hstack
      obtain ⟨s, hs, primary, last, above, rfl, hall⟩ := ih _ (.group ho hstack)
      refine ⟨_, ?_, rfl⟩
      rw [Expr.tokens_grouping]
      exact .head (.opening ho) (hs.trans (.single (.closing hc hall)))
  | ofPrimary _ ih =>
      intro stack hstack
      obtain ⟨s, hs, rfl⟩ := ih _ (.ofAssignment hstack)
      exact ⟨_, hs, true, hstack.receive_eq _⟩
  | increment _ hop ih =>
      intro stack hstack
      obtain ⟨s, hs, rfl⟩ := ih _ (.ofAssignment hstack)
      rw [hstack.receive_eq] at hs
      rw [Expr.tokens_increment]
      refine ⟨_, hs.trans (.single ?_), false, rfl⟩
      exact .increment (Token.operatorClass?_eq_postfixed.2 hop)
  | @assignment target value op ht hop _ iht ihv =>
      intro stack hstack
      obtain ⟨s, hs, rfl⟩ := iht _ (.ofAssignment hstack)
      rw [hstack.receive_eq] at hs
      obtain ⟨s', hs', rfl⟩ := ihv _ (.update ht hop hstack)
      rw [Expr.tokens_assignment]
      have hmove : Step (holding true target stack) op (wanting (update target op :: stack)) :=
        .assignment (Token.operatorClass?_eq_assignment.2 hop)
      exact ⟨_, hs.trans (.head hmove hs'), false, rfl⟩
  | ofAssignment _ ih =>
      intro stack hstack
      obtain ⟨s, hs, primary, rfl⟩ := ih _ (.ofConditional hstack)
      exact ⟨_, hs, primary, _, _, rfl, rfl⟩
  | conditional hc hop _ ihc ihe =>
      intro stack hstack
      obtain ⟨s, hs, primary, rfl⟩ := ihc _ (.ofConditional hstack)
      obtain ⟨s', hs', primary', last, above, rfl, hguards⟩ := ihe _ (.guard hc hop hstack)
      rw [Expr.tokens_conditional]
      refine ⟨_, hs.trans (.head ?_ hs'), primary', last, above, rfl, hguards⟩
      exact .conditional (Token.operatorClass?_eq_conditional.2 hop)
  | ofConditional _ ih =>
      intro stack hstack
      obtain ⟨s, hs, primary, last, above, rfl, hguards⟩ := ih _ (.ofChain hstack)
      refine ⟨_, hs, primary, last, above, rfl, ?_⟩
      rw [← closeAll_closeGuards, hguards, closeAll_closeGuards]
  | chaining hf hop _ ihf ihs =>
      intro stack hstack
      obtain ⟨s, hs, primary, last, above, rfl, hguards⟩ := ihf _ (.ofChain hstack)
      obtain ⟨s', hs', primary', last', above', rfl, hall⟩ := ihs _ (.chain hf hop hstack)
      rw [Expr.tokens_chaining]
      refine ⟨_, hs.trans (.head ?_ hs'), primary', last', above', rfl, hall⟩
      -- Below a chain there are no conditionals left to complete.
      rw [hstack.closeGuards_eq] at hguards
      exact .chaining (Token.operatorClass?_eq_chaining.2 hop) hguards

/-- What is reached behind a whole chain can finish as this chain. -/
lemma finish_of_reached {s : State} {e : Expr} (h : Reached .chain e [] s) : s.finish = .ok e := by
  obtain ⟨primary, last, above, rfl, hall⟩ := h
  have hopen : openGroup? above = none := by
    rw [← openGroup?_closeAll last, hall]
    rfl
  simp [State.finish, hopen, hall, closeAll]

/-- A tree that is parsed is a chain, and no token is lost or added. -/
theorem shaped_of_parse {ts : List Token} {e : Expr} (h : parse ts = .ok e) :
    e.tokens = ts ∧ Shaped .chain e := by
  obtain ⟨last, hreads, hfinish⟩ := parse_eq_ok_iff_reads.1 h
  have hsound : last.Sound := hreads.sound (Awaits.primary_of_chain .top)
  obtain ⟨hshape, htokens⟩ := hsound.finish hfinish
  rw [hreads.tokens] at htokens
  exact ⟨htokens, hshape⟩

/-- A chain is the tree of its own tokens. -/
theorem parse_tokens {e : Expr} (h : Shaped .chain e) : parse e.tokens = .ok e := by
  obtain ⟨last, hreads, hreached⟩ := reads_of_shaped h [] .top
  exact parse_eq_ok_iff_reads.2 ⟨last, hreads, finish_of_reached hreached⟩

/-- **The parser accepts exactly its grammar.**  It gives a tree for a list of tokens when, and
only when, the tree is a chain and is written with these tokens. -/
theorem parse_eq_ok_iff_shaped (ts : List Token) (e : Expr) :
    parse ts = .ok e ↔ e.tokens = ts ∧ Shaped .chain e := by
  constructor
  · exact shaped_of_parse
  · rintro ⟨rfl, hshape⟩
    exact parse_tokens hshape

end Grammar

end EffectLang
