import EffectLang.Proofs.Grammar.Join

/-!
# Precedence as a law of joining

A parsed tree has two spines.  Along the right of its root stand the links of a chain, and along
the right of each link its conditions, with what they guard at the end.  `Expr.rows` reads off both:
one row for each link, and in the row what stands between its `=>`.

The main statement is `parse_join_rows`.  Of two lists of tokens that parse, joined by `>>`, the
rows follow one another, so `>>` is the loosest operator.  Joined by `=>`, the last row of the first
list goes on with the first row of the second one and all other rows stay, so `=>` takes hold of its
two neighbours alone.  Either way the entries of the rows are the same subtrees as before.

**The joined tree is built from the outside in.**  `Expr.followedBy` and `Expr.guarding` go down the
spines of the first tree, and rebuild them around the second one.
-/

namespace EffectLang

namespace Expr

/-! ## Links, stages and rows -/

/-- What stands between the `>>` along the right spine. -/
def links : Expr → List Expr
  | chaining first _ second => first :: second.links
  | e => [e]

/-- What stands between the `=>` along the right spine: the conditions, and what they guard. -/
def stages : Expr → List Expr
  | conditional condition _ effect => condition :: effect.stages
  | e => [e]

/-- The stages of each link. -/
def rows (e : Expr) : List (List Expr) := e.links.map stages

/-- A tree without `>>` at its root is its only link. -/
lemma links_of_link {e : Expr} (hne : ∀ first op second, e = chaining first op second → False) :
    e.links = [e] := by
  cases e with
  | chaining first op second => exact absurd rfl (hne _ _ _)
  | _ => rfl

/-- A tree without `=>` at its root is its only stage. -/
lemma stages_of_stage {e : Expr}
    (hne : ∀ condition op effect, e = conditional condition op effect → False) :
    e.stages = [e] := by
  cases e with
  | conditional condition op effect => exact absurd rfl (hne _ _ _)
  | _ => rfl

lemma links_ne_nil (e : Expr) : e.links ≠ [] := by
  cases e <;> simp [links]

lemma stages_ne_nil (e : Expr) : e.stages ≠ [] := by
  cases e <;> simp [stages]

lemma rows_ne_nil (e : Expr) : e.rows ≠ [] := by
  simp [rows, links_ne_nil]

lemma rows_chaining (first : Expr) (op : Token) (second : Expr) :
    (chaining first op second).rows = first.stages :: second.rows := rfl

lemma rows_of_link {e : Expr} (hne : ∀ first op second, e = chaining first op second → False) :
    e.rows = [e.stages] := by
  rw [rows, links_of_link hne, List.map_singleton]

/-! ## Joining by `>>` -/

/-- The links of two chains joined by `>>` are those of the first and then those of the second. -/
lemma links_followedBy (first : Expr) (op : Token) (second : Expr) :
    (first.followedBy op second).links = first.links ++ second.links := by
  fun_induction followedBy first op second with
  | case1 link o rest operator second ih => simp [links, ih]
  | case2 first operator second hne => simp [links, links_of_link hne]

/-- The rows of two chains joined by `>>` are those of the first and then those of the second. -/
lemma rows_followedBy (first : Expr) (op : Token) (second : Expr) :
    (first.followedBy op second).rows = first.rows ++ second.rows := by
  rw [rows, links_followedBy, List.map_append, rows, rows]

/-! ## Joining by `=>` -/

/-- Two chains with `=>` in between: the last link of the first one becomes a condition on the first
link of the second one. -/
def guarding : Expr → Token → Expr → Expr
  | chaining link op rest, operator, second => chaining link op (rest.guarding operator second)
  | conditional condition op effect, operator, second =>
    condition.guardedBy op (effect.guarding operator second)
  | condition, operator, second => condition.guardedBy operator second

lemma tokens_guarding (first : Expr) (op : Token) (second : Expr) :
    (first.guarding op second).tokens = first.tokens ++ op :: second.tokens := by
  fun_induction guarding first op second with
  | case1 link o rest operator second ih => simp [tokens_chaining, ih]
  | case2 condition o effect operator second ih =>
      simp [tokens_guardedBy, tokens_conditional, ih]
  | case3 condition operator second _ _ => exact tokens_guardedBy condition operator second

/-- A condition in front becomes the first stage of the first link. -/
lemma rows_guardedBy (condition : Expr) (op : Token) (effect : Expr) :
    (condition.guardedBy op effect).rows =
      (condition :: effect.rows.head effect.rows_ne_nil) :: effect.rows.tail := by
  fun_cases guardedBy condition op effect with
  | case1 link o rest => rfl
  | case2 effect hne =>
      have hrows : (conditional condition op effect).rows = [condition :: effect.stages] := rfl
      simp [rows_of_link hne, hrows]

end Expr

namespace Grammar

open EffectLang.Expr

/-- Two chains joined by `=>` are a chain. -/
lemma Shaped.guarding {first second : Expr} {op : Token} (hf : Shaped .chain first)
    (hop : op.kind = .operator "=>") (hs : Shaped .chain second) :
    Shaped .chain (first.guarding op second) := by
  fun_induction Expr.guarding first op second with
  | case1 link o rest operator second ih =>
      obtain ⟨hlink, ho, hrest⟩ := hf.chaining_inv
      exact .chaining hlink ho (ih hrest hop hs)
  | case2 condition o effect operator second ih =>
      obtain ⟨hcondition, ho, heffect⟩ := hf.conditional_inv
      exact Shaped.guardedBy hcondition ho (ih (.ofConditional heffect) hop hs)
  | case3 condition operator second hchain hguard =>
      have hcondition := hf.conditional_of_chain hchain
      exact Shaped.guardedBy (hcondition.assignment_of_conditional hguard) hop hs

/-- The last row of the first tree goes on with the first row of the second one. -/
lemma rows_guarding {first : Expr} (hf : Shaped .chain first) (op : Token) (second : Expr) :
    (first.guarding op second).rows =
      first.rows.dropLast ++
        (first.rows.getLast first.rows_ne_nil ++ second.rows.head second.rows_ne_nil) ::
          second.rows.tail := by
  fun_induction Expr.guarding first op second with
  | case1 link o rest operator second ih =>
      obtain ⟨-, -, hrest⟩ := hf.chaining_inv
      simp [rows_chaining, ih hrest, List.dropLast_cons_of_ne_nil, List.getLast_cons, rows_ne_nil]
  | case2 condition o effect operator second ih =>
      obtain ⟨-, -, heffect⟩ := hf.conditional_inv
      have hrows : effect.rows = [effect.stages] := rows_of_link heffect.ne_chaining
      have hfirst : (Expr.conditional condition o effect).rows = [condition :: effect.stages] := rfl
      simp [rows_guardedBy, ih (.ofConditional heffect), hrows, hfirst]
  | case3 condition operator second hchain hguard =>
      simp [rows_guardedBy, rows_of_link hchain, stages_of_stage hguard]

/-! ## Precedence -/

/-- The links of a chain have no `>>` outside groups. -/
lemma Shaped.of_mem_links {e : Expr} (h : Shaped .chain e) :
    ∀ link ∈ e.links, Shaped .conditional link := by
  fun_induction Expr.links e with
  | case1 first op second ih =>
      obtain ⟨hf, -, hs⟩ := h.chaining_inv
      exact List.forall_mem_cons.2 ⟨hf, ih hs⟩
  | case2 e hne => exact List.forall_mem_singleton.2 (h.conditional_of_chain hne)

/-- The stages of a link have no `=>` outside groups. -/
lemma Shaped.of_mem_stages {e : Expr} (h : Shaped .conditional e) :
    ∀ stage ∈ e.stages, Shaped .assignment stage := by
  fun_induction Expr.stages e with
  | case1 condition op effect ih =>
      obtain ⟨hc, -, he⟩ := Shaped.conditional_inv (.ofConditional h)
      exact List.forall_mem_cons.2 ⟨hc, ih he⟩
  | case2 e hne => exact List.forall_mem_singleton.2 (h.assignment_of_conditional hne)

/-- The entries of the rows are the subtrees at the level of assignments. -/
lemma Shaped.of_mem_rows {e : Expr} (h : Shaped .chain e) :
    ∀ row ∈ e.rows, row ≠ [] ∧ ∀ stage ∈ row, Shaped .assignment stage := by
  refine List.forall_mem_map.2 fun link hlink => ⟨stages_ne_nil link, ?_⟩
  exact (h.of_mem_links link hlink).of_mem_stages

/-- Joined by `>>`, two lists of tokens parse to the chain that goes on with the second tree. -/
lemma parse_followedBy {ts us : List Token} {first second : Expr} {op : Token}
    (hf : parse ts = .ok first) (hop : op.kind = .operator ">>") (hs : parse us = .ok second) :
    parse (ts ++ op :: us) = .ok (first.followedBy op second) := by
  obtain ⟨rfl, hfirst⟩ := shaped_of_parse hf
  obtain ⟨rfl, hsecond⟩ := shaped_of_parse hs
  rw [← tokens_followedBy]
  exact parse_tokens (hfirst.followedBy hop hsecond)

/-- Two lists joined by `=>` parse to the last link of the first and the first link of the second,
joined. -/
lemma parse_guarding {ts us : List Token} {first second : Expr} {op : Token}
    (hf : parse ts = .ok first) (hop : op.kind = .operator "=>") (hs : parse us = .ok second) :
    parse (ts ++ op :: us) = .ok (first.guarding op second) := by
  obtain ⟨rfl, hfirst⟩ := shaped_of_parse hf
  obtain ⟨rfl, hsecond⟩ := shaped_of_parse hs
  rw [← tokens_guarding]
  exact parse_tokens (hfirst.guarding hop hsecond)

/-- **Precedence is a law of joining.**  Two lists of tokens that parse can be joined by `>>` and by
`=>`.  With `>>` the rows of the one follow those of the other; with `=>` the last row of the one
goes on with the first row of the other. -/
theorem parse_join_rows {ts us : List Token} {first second : Expr} {op : Token}
    (hf : parse ts = .ok first) (hs : parse us = .ok second) :
    (∀ row ∈ first.rows, row ≠ [] ∧ ∀ stage ∈ row, Shaped .assignment stage) ∧
      (op.kind = .operator ">>" →
        ∃ e, parse (ts ++ op :: us) = .ok e ∧ e.rows = first.rows ++ second.rows) ∧
      (op.kind = .operator "=>" →
        ∃ e, parse (ts ++ op :: us) = .ok e ∧
          e.rows = first.rows.dropLast ++
            (first.rows.getLast first.rows_ne_nil ++ second.rows.head second.rows_ne_nil) ::
              second.rows.tail) := by
  obtain ⟨-, hfirst⟩ := shaped_of_parse hf
  refine ⟨hfirst.of_mem_rows, fun hop => ?_, fun hop => ?_⟩
  · exact ⟨_, parse_followedBy hf hop hs, rows_followedBy first op second⟩
  · exact ⟨_, parse_guarding hf hop hs, rows_guarding hfirst op second⟩

/-- `A++ >> C` and `D => (E) >> F--`: with `=>` in between, `C` becomes the condition on `D`, and
neither `A++` nor `F--` is touched. -/
theorem parse_join_rows_guard_between :
    ∃ ts us first second, ts = [.bare (.name "A"), .bare (.operator "++"),
        .bare (.operator ">>"), .bare (.name "C")] ∧
      us = [.bare (.name "D"), .bare (.operator "=>"), .bare (.paren .left), .bare (.name "E"),
        .bare (.paren .right), .bare (.operator ">>"), .bare (.name "F"),
        .bare (.operator "--")] ∧
      parse ts = .ok first ∧ parse us = .ok second ∧
      ∃ e, parse (ts ++ .bare (.operator "=>") :: us) = .ok e ∧
        e.rows = [[.increment (.atom (.bare (.name "A"))) (.bare (.operator "++"))],
          [.atom (.bare (.name "C")), .atom (.bare (.name "D")),
            .grouping (.bare (.paren .left)) (.atom (.bare (.name "E"))) (.bare (.paren .right))],
          [.increment (.atom (.bare (.name "F"))) (.bare (.operator "--"))]] := by
  have hf : parse [.bare (.name "A"), .bare (.operator "++"), .bare (.operator ">>"),
      .bare (.name "C")] =
        .ok (.chaining (.increment (.atom (.bare (.name "A"))) (.bare (.operator "++")))
          (.bare (.operator ">>")) (.atom (.bare (.name "C")))) := rfl
  have hs : parse [.bare (.name "D"), .bare (.operator "=>"), .bare (.paren .left),
      .bare (.name "E"), .bare (.paren .right), .bare (.operator ">>"), .bare (.name "F"),
      .bare (.operator "--")] =
        .ok (.chaining (.conditional (.atom (.bare (.name "D"))) (.bare (.operator "=>"))
            (.grouping (.bare (.paren .left)) (.atom (.bare (.name "E"))) (.bare (.paren .right))))
          (.bare (.operator ">>"))
          (.increment (.atom (.bare (.name "F"))) (.bare (.operator "--")))) := rfl
  exact ⟨_, _, _, _, rfl, rfl, hf, hs, (parse_join_rows hf hs).2.2 rfl⟩

end Grammar

end EffectLang
