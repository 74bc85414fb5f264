import EffectLang.Proofs.Grammar.Precedence
import EffectLang.Proofs.Grammar.Refusal

/-!
# Repairs

Three of the parse errors come with advice: take a `)` away or put the missing `(` in front, close
the group, join two effects with `>>`.  The main statement is `parse_error_repairs`: tokens that are
changed as they advise parse, and what they parse to is made of the trees that were there.

**What the parser held when it gave up.**  At a `)` that closes nothing, and at a token behind a
whole effect, no group is open, so the tokens in front are an effect by themselves
(`parse_of_closed`).  An effect may be put in parentheses (`parse_enclosed`), and another effect may
follow it (`parse_followedBy`).

**Each `)` ends one group.**  At the end of the tokens the parser holds an operand, with the open
groups around it.  Behind an operand `reads_closings` takes one group away for each `)`, and what
the parser then holds is again an operand.  So the tokens parse when no group is left, and as long
as one is left the next one is asked for (`parse_of_open`).
-/

namespace EffectLang

namespace Grammar

open Pending State

/-! ## What a whole operand amounts to -/

section Held

variable {ts : List Token} {primary : Bool} {e : Expr} {stack : List Pending}

/-- Where no group is open, the tokens read so far are an effect. -/
lemma parse_of_closed (hreads : Reads (wanting []) ts (holding primary e stack))
    (hclosed : groups stack = []) : parse ts = .ok (closeAll e stack).1 :=
  parse_eq_ok_iff_reads.2 ⟨_, hreads, finish_of_closed hclosed⟩

/-- The tokens end inside a group. -/
lemma parse_of_open {opening : Token} (hreads : Reads (wanting []) ts (holding primary e stack))
    (hopen : opening ∈ (groups stack).head?) :
    ∃ err, parse ts = .error err ∧ err.kind = .unclosedParen := by
  have hne : ts ≠ [] := by
    rintro rfl
    cases hreads
  have hfinish : (holding primary e stack).finish = .error (.groupUnclosed opening) := by
    simp only [State.finish, openGroup?_eq_head?, Option.mem_def.1 hopen]
  have hrun := hreads.run_append 0 []
  rw [List.append_nil] at hrun
  rw [parse_eq_run hne, hrun, State.run, hfinish]
  exact ⟨_, rfl, by simp [Fault.error, ParseError.unclosedParen]⟩

end Held

/-! ## The repairs -/

/-- What can be done about an error at token `k`. -/
structure Repairs (ts : List Token) (k : Nat) (err : ParseError) : Prop where
  /-- In front of a `)` that closes nothing stands an effect, and a `(` in front of all encloses
  it. -/
  unmatched : err.kind = .unmatchedCloseParen →
    ∃ e closing, ts[k]? = some closing ∧ closing.kind = .paren .right ∧ err.span = closing.span ∧
      parse (ts.take k) = .ok e ∧
      ∀ opening : Token, opening.kind = .paren .left →
        parse (opening :: ts.take (k + 1)) = .ok (.grouping opening e closing)
  /-- At the end of the tokens, each open group asks for a `)` of its own. -/
  unclosed : err.kind = .unclosedParen →
    err.span = Cursor.currentSpan ⟨ts, k⟩ ∧
    (k = ts.length → ∀ closings : List Token, (∀ t ∈ closings, t.kind = .paren .right) →
      (closings.length = (openParens ts).length → ∃ e, parse (ts ++ closings) = .ok e) ∧
      (closings.length < (openParens ts).length →
        ∃ err', parse (ts ++ closings) = .error err' ∧ err'.kind = .unclosedParen))
  /-- Two effects in a row are joined by a `>>` between them. -/
  trailing : ∀ found, err.kind = .trailingTokens found →
    err.span = Cursor.remainingSpan ⟨ts, k⟩ ∧
    ∃ first, parse (ts.take k) = .ok first ∧
      ∀ second, parse (ts.drop k) = .ok second →
        ∀ op : Token, op.kind = .operator ">>" →
          ∃ e, parse (ts.take k ++ op :: ts.drop k) = .ok e ∧ e.links = first.links ++ second.links

/-- Closing parentheses end groups one by one. -/
lemma parse_closings {ts closings : List Token} {primary : Bool} {e : Expr} {stack : List Pending}
    (hreads : Reads (wanting []) ts (holding primary e stack))
    (hclosings : ∀ t ∈ closings, t.kind = .paren .right) :
    (closings.length = (openParens ts).length → ∃ e, parse (ts ++ closings) = .ok e) ∧
      (closings.length < (openParens ts).length →
        ∃ err, parse (ts ++ closings) = .error err ∧ err.kind = .unclosedParen) := by
  have hgroups : groups stack = openParens ts := hreads.groups
  have hsound := hreads.sound sound_start
  rw [← hgroups]
  constructor
  · intro hlength
    obtain ⟨_, _, _, hmore, hdrop⟩ := reads_closings hclosings hsound (Nat.le_of_eq hlength)
    rw [hlength, List.drop_length] at hdrop
    exact ⟨_, parse_of_closed (hreads.trans hmore) hdrop⟩
  · intro hlength
    obtain ⟨_, _, stack', hmore, hdrop⟩ := reads_closings hclosings hsound (Nat.le_of_lt hlength)
    have hopen : (groups stack)[closings.length] ∈ (groups stack').head? := by
      rw [hdrop, List.head?_drop, List.getElem?_eq_getElem hlength]
      rfl
    exact parse_of_open (hreads.trans hmore) hopen

lemma Refusal.repairs {ts : List Token} {k : Nat} {err : ParseError} (h : Refusal ts k err) :
    Repairs ts k err := by
  cases h with
  | empty hnil => constructor <;> simp [ParseError.emptyInput]
  | operand hreads ht => constructor <;> simp [ParseError.expectedOperand]
  | operandEnd hreads hend => constructor <;> simp [ParseError.unexpectedEndOfInput]
  | unclosed hreads hclose =>
      constructor
      case unclosed =>
        intro _
        refine ⟨ParseError.span_climb _ _, ?_⟩
        rintro rfl closings hclosings
        rw [List.take_length] at hreads
        exact parse_closings hreads hclosings
      all_goals simp [ParseError.unclosedParen]
  | @unmatched primary e stack closing hreads hclosed ht hright =>
      constructor
      case unmatched =>
        intro _
        have hparse := parse_of_closed hreads hclosed
        refine ⟨_, closing, ht, hright, rfl, hparse, fun opening ho => ?_⟩
        rw [List.take_add_one, ht]
        exact parse_enclosed ho hparse hright
      all_goals simp [ParseError.unmatchedCloseParen]
  | trailing hreads hclosed ht hright =>
      constructor
      case trailing =>
        intro _ _
        have hfirst := parse_of_closed hreads hclosed
        refine ⟨rfl, _, hfirst, fun second hsecond op hop => ?_⟩
        exact ⟨_, parse_followedBy hfirst hop hsecond, Expr.links_followedBy _ op second⟩
      all_goals simp [ParseError.trailingTokens]

/-- **The repairs that parse errors suggest are sound.**  A `)` that closes nothing can be taken
away with all behind it, or be given a `(`; groups that are open at the end want as many `)` as
there are groups, and no fewer; two effects in a row can be joined by `>>`. -/
theorem parse_error_repairs {ts : List Token} {err : ParseError} (h : parse ts = .error err) :
    ∃ k, IsGreatest {m | m ≤ ts.length ∧ Viable (ts.take m)} k ∧ Repairs ts k err := by
  obtain ⟨k, hk, hrefusal⟩ := refusal_of_parse_error h
  exact ⟨k, hk, hrefusal.repairs⟩

/-- In `(A => (B++` two groups are open. -/
theorem parse_error_repairs_nested :
    ∃ ts err, ts = [.bare (.paren .left), .bare (.name "A"), .bare (.operator "=>"),
        .bare (.paren .left), .bare (.name "B"), .bare (.operator "++")] ∧
      parse ts = .error err ∧ err.kind = .unclosedParen ∧ (openParens ts).length = 2 ∧
      ∃ k, IsGreatest {m | m ≤ ts.length ∧ Viable (ts.take m)} k ∧ Repairs ts k err :=
  ⟨_, _, rfl, rfl, rfl, rfl, parse_error_repairs rfl⟩

end Grammar

end EffectLang
