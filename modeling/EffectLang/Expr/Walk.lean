import EffectLang.Expr.Basic

/-!
# Walking an expression

A walk comes to every node before its parts, and to the parts in the order in which they were
written.  It keeps an agenda of what is still to be visited instead of returning to a node, so a
tree of any depth is walked in constant space on the stack.

The equations `visits_atom`, …, `visits_chaining` say what a walk sees of each kind of node.
-/

namespace EffectLang

/-- What a walk comes to: a node or a token. -/
inductive Visit where
  | node (e : Expr)
  | token (t : Token)

namespace Expr

/-- What a node is made of, in the order in which it was written, and then the rest of an
agenda. -/
def partsThen : Expr → List Visit → List Visit
  | atom token, agenda => .token token :: agenda
  | grouping opening inner closing, agenda =>
    .token opening :: .node inner :: .token closing :: agenda
  | increment operand operator, agenda => .node operand :: .token operator :: agenda
  | assignment target operator value, agenda =>
    .node target :: .token operator :: .node value :: agenda
  | conditional condition operator effect, agenda =>
    .node condition :: .token operator :: .node effect :: agenda
  | chaining first operator second, agenda =>
    .node first :: .token operator :: .node second :: agenda

/-- The parts of a node come first, however much is on the agenda behind them. -/
theorem partsThen_append (e : Expr) (agenda more : List Visit) :
    e.partsThen (agenda ++ more) = e.partsThen agenda ++ more := by
  cases e <;> rfl

/-- The number of nodes and tokens of a tree. -/
def size : Expr → Nat
  | atom _ => 2
  | grouping _ inner _ => inner.size + 3
  | increment operand _ => operand.size + 2
  | assignment target _ value => target.size + value.size + 2
  | conditional condition _ effect => condition.size + effect.size + 2
  | chaining first _ second => first.size + second.size + 2

end Expr

namespace Visit

/-- How many nodes and tokens a visit leads to. -/
def size : Visit → Nat
  | node e => e.size
  | token _ => 1

/-- The number of nodes and tokens that a walk of an agenda comes to. -/
def agendaSize : List Visit → Nat
  | [] => 0
  | v :: agenda => v.size + agendaSize agenda

/-- To visit a node takes it off the agenda and puts everything below it on. -/
theorem agendaSize_partsThen (e : Expr) (agenda : List Visit) :
    agendaSize (e.partsThen agenda) + 1 = e.size + agendaSize agenda := by
  cases e <;> simp [Expr.partsThen, Expr.size, agendaSize, size] <;> omega

/-- Visits what is on the agenda and everything below it, after what was seen before. -/
def walk : List Visit → List Visit → List Visit
  | [], seen => seen.reverse
  | token t :: agenda, seen => walk agenda (token t :: seen)
  | node e :: agenda, seen => walk (e.partsThen agenda) (node e :: seen)
termination_by agenda => agendaSize agenda
decreasing_by
  · simp [agendaSize, size]
  · have := agendaSize_partsThen e agenda
    simp only [agendaSize, size]
    omega

/-- A walk of two agendas is the walk of the first one and then that of the second one. -/
theorem walk_append (first second seen : List Visit) :
    walk (first ++ second) seen = walk second (walk first seen).reverse := by
  fun_induction walk first seen with
  | case1 seen => simp
  | case2 seen t agenda ih => simpa [walk] using ih
  | case3 seen e agenda ih => simpa [walk, Expr.partsThen_append] using ih

/-- What was seen before stays in front. -/
theorem walk_seen (agenda seen before : List Visit) :
    walk agenda (seen ++ before) = before.reverse ++ walk agenda seen := by
  fun_induction walk agenda seen with
  | case1 seen => simp [walk]
  | case2 seen t agenda ih => simpa [walk] using ih
  | case3 seen e agenda ih => simpa [walk] using ih

end Visit

namespace Expr

/-- The nodes and tokens of a tree in walking order. -/
def visits (e : Expr) : List Visit := Visit.walk [.node e] []

/-- A walk comes to the root, and then to its parts. -/
theorem visits_eq (e : Expr) : e.visits = .node e :: Visit.walk (e.partsThen []) [] := by
  have h := Visit.walk_seen (e.partsThen []) [] [.node e]
  simp only [List.nil_append] at h
  rw [visits, Visit.walk, h]
  simp

/-- Nothing is left to visit. -/
theorem walk_nil : Visit.walk [] [] = [] := by
  simp [Visit.walk]

/-- A token leads to nothing else. -/
theorem walk_token_cons (t : Token) (agenda : List Visit) :
    Visit.walk (.token t :: agenda) [] = .token t :: Visit.walk agenda [] := by
  have h := Visit.walk_seen agenda [] [.token t]
  simp only [List.nil_append] at h
  rw [Visit.walk, h]
  simp

/-- A node is walked to its end before the agenda goes on. -/
theorem walk_node_cons (e : Expr) (agenda : List Visit) :
    Visit.walk (.node e :: agenda) [] = e.visits ++ Visit.walk agenda [] := by
  have h := Visit.walk_append [.node e] agenda []
  have h' := Visit.walk_seen agenda [] (Visit.walk [.node e] []).reverse
  simp only [List.nil_append, List.singleton_append] at h h'
  rw [h, h', List.reverse_reverse, visits]

/-- A walk comes to an atom and its token. -/
theorem visits_atom (t : Token) : (atom t).visits = [.node (atom t), .token t] := by
  rw [visits_eq]
  simp only [partsThen, walk_token_cons, walk_nil]

/-- A walk comes to a group, and then to its inside between its parentheses. -/
theorem visits_grouping (o : Token) (e : Expr) (c : Token) :
    (grouping o e c).visits = .node (grouping o e c) :: .token o :: (e.visits ++ [.token c]) := by
  rw [visits_eq]
  simp only [partsThen, walk_token_cons, walk_node_cons, walk_nil]

/-- A walk comes to an increment, its operand and its operator. -/
theorem visits_increment (e : Expr) (op : Token) :
    (increment e op).visits = .node (increment e op) :: (e.visits ++ [.token op]) := by
  rw [visits_eq]
  simp only [partsThen, walk_token_cons, walk_node_cons, walk_nil]

/-- A walk comes to an assignment, and then to its parts around its operator. -/
theorem visits_assignment (l : Expr) (op : Token) (r : Expr) :
    (assignment l op r).visits =
      .node (assignment l op r) :: (l.visits ++ .token op :: r.visits) := by
  rw [visits_eq]
  simp only [partsThen, walk_token_cons, walk_node_cons, walk_nil, List.append_nil]

/-- A walk comes to a conditional, and then to its parts around its operator. -/
theorem visits_conditional (l : Expr) (op : Token) (r : Expr) :
    (conditional l op r).visits =
      .node (conditional l op r) :: (l.visits ++ .token op :: r.visits) := by
  rw [visits_eq]
  simp only [partsThen, walk_token_cons, walk_node_cons, walk_nil, List.append_nil]

/-- A walk comes to a chaining, and then to its parts around its operator. -/
theorem visits_chaining (l : Expr) (op : Token) (r : Expr) :
    (chaining l op r).visits =
      .node (chaining l op r) :: (l.visits ++ .token op :: r.visits) := by
  rw [visits_eq]
  simp only [partsThen, walk_token_cons, walk_node_cons, walk_nil, List.append_nil]

end Expr

end EffectLang
