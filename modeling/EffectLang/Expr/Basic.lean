import EffectLang.Token.Basic

/-!
# Expressions

The tree of an item effect.  A node owns the operator or the parentheses it was written with, so
that no token of the text is lost.  A tree need not make sense: `EffectLang.Expr.Verdict` judges
it.
-/

namespace EffectLang

/-- An expression with all tokens that it was written with. -/
inductive Expr where
  /-- A name, a number or a logic string. -/
  | atom (token : Token)
  /-- `( inner )` -/
  | grouping (opening : Token) (inner : Expr) (closing : Token)
  /-- `operand ++` or `operand --` -/
  | increment (operand : Expr) (operator : Token)
  /-- `target += value` or `target -= value` -/
  | assignment (target : Expr) (operator : Token) (value : Expr)
  /-- `condition => effect` -/
  | conditional (condition : Expr) (operator : Token) (effect : Expr)
  /-- `first >> second` -/
  | chaining (first : Expr) (operator : Token) (second : Expr)

/-- The construct that stands at the root of an expression. -/
inductive ExprKind where
  | atom
  | grouping
  | increment
  | assignment
  | conditional
  | chaining
deriving DecidableEq

/-- All kinds of nodes. -/
def ExprKind.all : List ExprKind :=
  [atom, grouping, increment, assignment, conditional, chaining]

/-- What users call a node of this kind. -/
def ExprKind.label : ExprKind → String
  | atom => "atom"
  | grouping => "grouping"
  | increment => "increment"
  | assignment => "compound assignment"
  | conditional => "conditional"
  | chaining => "chaining"

namespace Expr

/-- The kind of the root. -/
def kind : Expr → ExprKind
  | atom _ => .atom
  | grouping _ _ _ => .grouping
  | increment _ _ => .increment
  | assignment _ _ _ => .assignment
  | conditional _ _ _ => .conditional
  | chaining _ _ _ => .chaining

/-- A bare name, the only thing that an increment or an assignment can change. -/
def isName : Expr → Bool
  | atom token => token.name?.isSome
  | grouping _ _ _ => false
  | increment _ _ => false
  | assignment _ _ _ => false
  | conditional _ _ _ => false
  | chaining _ _ _ => false

end Expr

end EffectLang
