import EffectLang.Token.Basic

/-!
# Operators of item effects

The six operators of the item-effect grammar and the four parts they play in it.  A text may be
read with any catalog of operators; the grammar gives a meaning to these six alone.
-/

namespace EffectLang

/-- An operator of the item-effect grammar. -/
inductive ItemOperator where
  /-- `++` -/
  | increment
  /-- `--` -/
  | decrement
  /-- `+=` -/
  | addAssign
  /-- `-=` -/
  | subAssign
  /-- `=>` -/
  | conditional
  /-- `>>` -/
  | chain
deriving DecidableEq

/-- The part that an operator plays in the grammar. -/
inductive OperatorClass where
  /-- Stands after a name: `X++`. -/
  | postfixed
  /-- Stands between a name and a value: `X += 1`. -/
  | assignment
  /-- Stands between a condition and an effect. -/
  | conditional
  /-- Stands between two effects. -/
  | chaining
deriving DecidableEq

namespace ItemOperator

/-- All six operators. -/
def all : List ItemOperator :=
  [increment, decrement, addAssign, subAssign, conditional, chain]

/-- The text of an operator. -/
def symbol : ItemOperator → String
  | increment => "++"
  | decrement => "--"
  | addAssign => "+="
  | subAssign => "-="
  | conditional => "=>"
  | chain => ">>"

/-- The operator with this text. -/
def ofSymbol? (s : String) : Option ItemOperator :=
  all.find? fun op => op.symbol == s

/-- The part that each operator plays. -/
def operatorClass : ItemOperator → OperatorClass
  | increment => .postfixed
  | decrement => .postfixed
  | addAssign => .assignment
  | subAssign => .assignment
  | conditional => .conditional
  | chain => .chaining

/-- The operators of the item-effect grammar as a catalog. -/
def catalog : List String := all.map symbol

/-- No two operators have the same text. -/
theorem ofSymbol?_eq_some_iff {s : String} {op : ItemOperator} :
    ofSymbol? s = some op ↔ op.symbol = s := by
  constructor
  · intro h
    simpa using List.find?_some h
  · rintro rfl
    cases op <;> decide

end ItemOperator

/-- The part that a token plays in the grammar, if it is one of the six operators. -/
def Token.operatorClass? (t : Token) : Option OperatorClass :=
  (t.operator?.bind ItemOperator.ofSymbol?).map ItemOperator.operatorClass

end EffectLang
