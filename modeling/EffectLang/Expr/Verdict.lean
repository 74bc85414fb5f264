import EffectLang.Expr.Reading
import EffectLang.Operator.Basic
import EffectLang.TypeSet

/-!
# Judging an expression

Two questions about a tree: is every node of it legal, and what can the whole be read as?  The
answers depend on the answers for the parts, and on whether the target of an increment or of an
assignment is a bare name.  Neither question fails: an illegal tree has types too.

`verdict` follows the tree.  `check` goes through the nodes from the last one to the first one
with a stack of verdicts, so that a tree of any depth is judged in constant space;
`check_eq_verdict` says that this is the same.
-/

namespace EffectLang

/-- What is found out about an expression. -/
structure Verdict where
  valid : Bool
  types : TypeSet
deriving DecidableEq

namespace TypeSet

/-- The only reading of an action. -/
def effectIf (condition : Bool) : TypeSet :=
  if condition then singleton .itemEffect else empty

/-- What a token that stands alone can be read as.  A bare name is a numeric term as well as a
condition. -/
def ofAtom : TokenKind → TypeSet
  | .name _ => ofList [.termLike, .bool]
  | .number _ => singleton .int
  | .logic _ => singleton .bool
  | .operator _ => empty
  | .paren _ => empty

/-- Fit to be added to a name. -/
def isNumeric (s : TypeSet) : Bool := s.has .int || s.has .termLike

end TypeSet

namespace Verdict

/-- Legal, and readable as an action. -/
def isItemEffect (v : Verdict) : Bool := v.valid && v.types.has .itemEffect

/-- An atom is legal if its token may stand alone. -/
def atom (t : Token) : Verdict := ⟨t.isAtom, TypeSet.ofAtom t.kind⟩

/-- A group means what its inside means. -/
def grouping (opening : Token) (inner : Verdict) (closing : Token) : Verdict :=
  ⟨opening.isParen .left && closing.isParen .right && inner.valid, inner.types⟩

/-- An increment is an action on a bare name. -/
def increment (named : Bool) (operator : Token) : Verdict :=
  ⟨named && operator.operatorClass? == some .postfixed, TypeSet.effectIf named⟩

/-- An assignment is an action on a bare name that adds or subtracts a number. -/
def assignment (named : Bool) (operator : Token) (value : Verdict) : Verdict :=
  ⟨named && value.types.isNumeric && operator.operatorClass? == some .assignment && value.valid,
    TypeSet.effectIf (named && value.types.isNumeric)⟩

/-- A conditional is what its effect is, if its condition can be one. -/
def conditional (condition : Verdict) (operator : Token) (effect : Verdict) : Verdict :=
  ⟨operator.isOperator ItemOperator.conditional.symbol && condition.valid && effect.valid &&
      condition.types.has .bool && effect.types.has .itemEffect,
    if condition.types.has .bool then effect.types else TypeSet.empty⟩

/-- A chaining of two actions is an action. -/
def chaining (first : Verdict) (operator : Token) (second : Verdict) : Verdict :=
  ⟨operator.isOperator ItemOperator.chain.symbol && first.valid && second.valid &&
      first.types.has .itemEffect && second.types.has .itemEffect,
    TypeSet.effectIf (first.types.has .itemEffect && second.types.has .itemEffect)⟩

end Verdict

namespace Expr

/-- The verdict on a tree, from the verdicts on its parts. -/
def verdict : Expr → Verdict
  | atom t => .atom t
  | grouping opening inner closing => .grouping opening inner.verdict closing
  | increment operand operator => .increment operand.isName operator
  | assignment target operator value => .assignment target.isName operator value.verdict
  | conditional condition operator effect =>
    .conditional condition.verdict operator effect.verdict
  | chaining first operator second => .chaining first.verdict operator second.verdict

/-- Puts the verdict on a node in the place of the verdicts on its parts, which lie on top of the
stack, that on the first part uppermost. -/
def settle : Expr → List Verdict → List Verdict
  | atom t, stack => .atom t :: stack
  | grouping opening _ closing, inner :: stack => .grouping opening inner closing :: stack
  | increment operand operator, _ :: stack => .increment operand.isName operator :: stack
  | assignment target operator _, _ :: value :: stack =>
    .assignment target.isName operator value :: stack
  | conditional _ operator _, condition :: effect :: stack =>
    .conditional condition operator effect :: stack
  | chaining _ operator _, first :: second :: stack =>
    .chaining first operator second :: stack
  | _, stack => stack

/-- The verdict on a tree, from a stack of verdicts that the nodes are settled on, the last node
first. -/
def check (e : Expr) : Verdict := (e.nodes.foldr settle []).headD ⟨false, TypeSet.empty⟩

/-- Every node is legal. -/
def validate (e : Expr) : Bool := e.check.valid

/-- Everything that the tree can be read as. -/
def evaluate (e : Expr) : TypeSet := e.check.types

/-- Legal, and readable as an action. -/
def isItemEffect (e : Expr) : Bool := e.check.isItemEffect

/-- Settling all nodes of a tree leaves its verdict on the stack, whatever lies below. -/
theorem foldr_settle_nodes (e : Expr) (stack : List Verdict) :
    e.nodes.foldr settle stack = e.verdict :: stack := by
  induction e generalizing stack with
  | atom t => simp [nodes_atom, settle, verdict]
  | grouping o e c ih => simp [nodes_grouping, ih, settle, verdict]
  | increment e op ih => simp [nodes_increment, ih, settle, verdict]
  | assignment l op r ihl ihr => simp [nodes_assignment, ihl, ihr, settle, verdict]
  | conditional l op r ihl ihr => simp [nodes_conditional, ihl, ihr, settle, verdict]
  | chaining l op r ihl ihr => simp [nodes_chaining, ihl, ihr, settle, verdict]

/-- The two ways to judge a tree agree. -/
theorem check_eq_verdict (e : Expr) : e.check = e.verdict := by
  simp [check, foldr_settle_nodes]

/-- A tree is legal if its verdict says so. -/
theorem validate_eq (e : Expr) : e.validate = e.verdict.valid := by
  rw [validate, check_eq_verdict]

/-- The readings of a tree are those of its verdict. -/
theorem evaluate_eq (e : Expr) : e.evaluate = e.verdict.types := by
  rw [evaluate, check_eq_verdict]

/-- The one question asks two others. -/
theorem isItemEffect_eq (e : Expr) :
    e.isItemEffect = (e.validate && e.evaluate.has .itemEffect) := rfl

end Expr

end EffectLang
