import EffectLang.Expr.Walk

/-!
# Reading a tree back

Tokens, nodes, referenced names, printed text and span of a tree, all read off its walk, with an
equation for each kind of node.

`outline_inj` says that a tree is determined by the kinds of its nodes and its tokens in walking
order; equality of trees is decided by comparing outlines.
-/

namespace EffectLang

/-- What a walk shows of a visit. -/
inductive Mark where
  | enter (kind : ExprKind)
  | token (t : Token)
deriving DecidableEq

namespace Visit

/-- The token of a visit, if it comes to a token. -/
def token? : Visit → Option Token
  | node _ => none
  | token t => some t

/-- The node of a visit, if it comes to a node. -/
def node? : Visit → Option Expr
  | node e => some e
  | token _ => none

/-- Of a node only its kind is shown, of a token everything. -/
def mark : Visit → Mark
  | node e => .enter e.kind
  | token t => .token t

end Visit

namespace Expr

/-- The tokens of a tree in the order in which they were written. -/
def tokens (e : Expr) : List Token := e.visits.filterMap Visit.token?

/-- The nodes of a tree, each one before its parts. -/
def nodes (e : Expr) : List Expr := e.visits.filterMap Visit.node?

/-- What a walk shows of a tree. -/
def outline (e : Expr) : List Mark := e.visits.map Visit.mark

/-- The text that a tree was written as. -/
def print (e : Expr) : String := String.join (e.tokens.map Token.fullText)

/-- The names that occur in a tree.  The body of a logic string is not looked into. -/
def names (e : Expr) : List String := e.tokens.filterMap Token.name?

/-- From the content of the first token to that of the last one. -/
def span (e : Expr) : Span :=
  let tokens := e.tokens
  match tokens.head?, tokens.getLast? with
  | some first, some last => first.span.merge last.span
  | _, _ => Span.point 0

/-! ## Tokens -/

/-- An atom is its token. -/
theorem tokens_atom (t : Token) : (atom t).tokens = [t] := by
  simp [tokens, visits_atom, Visit.token?, List.filterMap_cons]

/-- A group is written as its inside between its parentheses. -/
theorem tokens_grouping (o : Token) (e : Expr) (c : Token) :
    (grouping o e c).tokens = o :: (e.tokens ++ [c]) := by
  simp [tokens, visits_grouping, Visit.token?, List.filterMap_cons]

/-- The operator of an increment comes last. -/
theorem tokens_increment (e : Expr) (op : Token) :
    (increment e op).tokens = e.tokens ++ [op] := by
  simp [tokens, visits_increment, Visit.token?, List.filterMap_cons]

/-- The operator of an assignment stands between its parts. -/
theorem tokens_assignment (l : Expr) (op : Token) (r : Expr) :
    (assignment l op r).tokens = l.tokens ++ op :: r.tokens := by
  simp [tokens, visits_assignment, Visit.token?, List.filterMap_cons]

/-- The operator of a conditional stands between its parts. -/
theorem tokens_conditional (l : Expr) (op : Token) (r : Expr) :
    (conditional l op r).tokens = l.tokens ++ op :: r.tokens := by
  simp [tokens, visits_conditional, Visit.token?, List.filterMap_cons]

/-- The operator of a chaining stands between its parts. -/
theorem tokens_chaining (l : Expr) (op : Token) (r : Expr) :
    (chaining l op r).tokens = l.tokens ++ op :: r.tokens := by
  simp [tokens, visits_chaining, Visit.token?, List.filterMap_cons]

/-! ## Nodes -/

/-- An atom has no parts. -/
theorem nodes_atom (t : Token) : (atom t).nodes = [atom t] := by
  simp [nodes, visits_atom, Visit.node?, List.filterMap_cons]

/-- A group has one part, its inside. -/
theorem nodes_grouping (o : Token) (e : Expr) (c : Token) :
    (grouping o e c).nodes = grouping o e c :: e.nodes := by
  simp [nodes, visits_grouping, Visit.node?, List.filterMap_cons]

/-- An increment has one part, its operand. -/
theorem nodes_increment (e : Expr) (op : Token) :
    (increment e op).nodes = increment e op :: e.nodes := by
  simp [nodes, visits_increment, Visit.node?, List.filterMap_cons]

/-- The nodes of the target come before those of the value. -/
theorem nodes_assignment (l : Expr) (op : Token) (r : Expr) :
    (assignment l op r).nodes = assignment l op r :: (l.nodes ++ r.nodes) := by
  simp [nodes, visits_assignment, Visit.node?, List.filterMap_cons]

/-- The nodes of the condition come before those of the effect. -/
theorem nodes_conditional (l : Expr) (op : Token) (r : Expr) :
    (conditional l op r).nodes = conditional l op r :: (l.nodes ++ r.nodes) := by
  simp [nodes, visits_conditional, Visit.node?, List.filterMap_cons]

/-- The nodes of the first effect come before those of the second. -/
theorem nodes_chaining (l : Expr) (op : Token) (r : Expr) :
    (chaining l op r).nodes = chaining l op r :: (l.nodes ++ r.nodes) := by
  simp [nodes, visits_chaining, Visit.node?, List.filterMap_cons]

/-! ## Outline -/

/-- An atom shows its kind and its token. -/
theorem outline_atom (t : Token) : (atom t).outline = [.enter .atom, .token t] := by
  simp [outline, visits_atom, Visit.mark, kind]

/-- A group shows its kind and then its inside between its parentheses. -/
theorem outline_grouping (o : Token) (e : Expr) (c : Token) :
    (grouping o e c).outline = .enter .grouping :: .token o :: (e.outline ++ [.token c]) := by
  simp [outline, visits_grouping, Visit.mark, kind]

/-- An increment shows its kind, its operand and its operator. -/
theorem outline_increment (e : Expr) (op : Token) :
    (increment e op).outline = .enter .increment :: (e.outline ++ [.token op]) := by
  simp [outline, visits_increment, Visit.mark, kind]

/-- An assignment shows its kind and then its parts around its operator. -/
theorem outline_assignment (l : Expr) (op : Token) (r : Expr) :
    (assignment l op r).outline =
      .enter .assignment :: (l.outline ++ .token op :: r.outline) := by
  simp [outline, visits_assignment, Visit.mark, kind]

/-- A conditional shows its kind and then its parts around its operator. -/
theorem outline_conditional (l : Expr) (op : Token) (r : Expr) :
    (conditional l op r).outline =
      .enter .conditional :: (l.outline ++ .token op :: r.outline) := by
  simp [outline, visits_conditional, Visit.mark, kind]

/-- A chaining shows its kind and then its parts around its operator. -/
theorem outline_chaining (l : Expr) (op : Token) (r : Expr) :
    (chaining l op r).outline = .enter .chaining :: (l.outline ++ .token op :: r.outline) := by
  simp [outline, visits_chaining, Visit.mark, kind]

/-- An outline begins with the kind of the root. -/
theorem outline_head? (e : Expr) : e.outline.head? = some (.enter e.kind) := by
  simp [outline, visits_eq, Visit.mark]

/-- Outlines that begin alike belong to roots of one kind. -/
theorem kind_eq_of_outline_append {a b : Expr} {r s : List Mark}
    (h : a.outline ++ r = b.outline ++ s) : a.kind = b.kind := by
  have := congrArg List.head? h
  simpa [List.head?_append, outline_head?] using this

/-- No outline can be read in two ways, whatever follows it. -/
theorem outline_append_inj (a : Expr) {b : Expr} {r s : List Mark}
    (h : a.outline ++ r = b.outline ++ s) : a = b ∧ r = s := by
  induction a generalizing b r s with
  | atom t =>
    cases b with
    | atom t' => simpa [outline_atom] using h
    | _ => cases kind_eq_of_outline_append h
  | grouping o e c ih =>
    cases b with
    | grouping o' e' c' =>
      simp only [outline_grouping, List.cons_append, List.append_assoc, List.cons.injEq,
        Mark.token.injEq, true_and] at h
      obtain ⟨rfl, h'⟩ := ih h.2
      simp only [List.nil_append, List.cons.injEq, Mark.token.injEq] at h'
      exact ⟨by rw [h.1, h'.1], h'.2⟩
    | _ => cases kind_eq_of_outline_append h
  | increment e op ih =>
    cases b with
    | increment e' op' =>
      simp only [outline_increment, List.cons_append, List.append_assoc, List.cons.injEq,
        true_and] at h
      obtain ⟨rfl, h'⟩ := ih h
      simp only [List.nil_append, List.cons.injEq, Mark.token.injEq] at h'
      exact ⟨by rw [h'.1], h'.2⟩
    | _ => cases kind_eq_of_outline_append h
  | assignment l op m ihl ihm =>
    cases b with
    | assignment l' op' m' =>
      simp only [outline_assignment, List.cons_append, List.append_assoc, List.cons.injEq,
        true_and] at h
      obtain ⟨rfl, h'⟩ := ihl h
      simp only [List.cons.injEq, Mark.token.injEq] at h'
      obtain ⟨rfl, rfl⟩ := ihm h'.2
      exact ⟨by rw [h'.1], rfl⟩
    | _ => cases kind_eq_of_outline_append h
  | conditional l op m ihl ihm =>
    cases b with
    | conditional l' op' m' =>
      simp only [outline_conditional, List.cons_append, List.append_assoc, List.cons.injEq,
        true_and] at h
      obtain ⟨rfl, h'⟩ := ihl h
      simp only [List.cons.injEq, Mark.token.injEq] at h'
      obtain ⟨rfl, rfl⟩ := ihm h'.2
      exact ⟨by rw [h'.1], rfl⟩
    | _ => cases kind_eq_of_outline_append h
  | chaining l op m ihl ihm =>
    cases b with
    | chaining l' op' m' =>
      simp only [outline_chaining, List.cons_append, List.append_assoc, List.cons.injEq,
        true_and] at h
      obtain ⟨rfl, h'⟩ := ihl h
      simp only [List.cons.injEq, Mark.token.injEq] at h'
      obtain ⟨rfl, rfl⟩ := ihm h'.2
      exact ⟨by rw [h'.1], rfl⟩
    | _ => cases kind_eq_of_outline_append h

/-- A tree is determined by its outline. -/
theorem outline_inj {a b : Expr} : a.outline = b.outline ↔ a = b := by
  refine ⟨fun h => ?_, fun h => h ▸ rfl⟩
  exact (outline_append_inj a (congrArg (· ++ []) h)).1

/-- Trees are compared by their outlines. -/
instance : DecidableEq Expr := fun _ _ => decidable_of_iff _ outline_inj

end Expr

end EffectLang
