/-!
# Type sets

What an expression can be read as.  An expression may have several readings at once: a bare name
is a numeric term and a condition.  A set of types is given by its membership test.
-/

namespace EffectLang

/-- A way to read an expression. -/
inductive TypeTag where
  /-- A numeric variable. -/
  | termLike
  /-- A condition. -/
  | bool
  /-- An integer value. -/
  | int
  /-- An action on the state of the game. -/
  | itemEffect
deriving DecidableEq

namespace TypeTag

/-- All types, in their order. -/
def all : List TypeTag := [termLike, bool, int, itemEffect]

/-- The name of a type. -/
def label : TypeTag → String
  | termLike => "TermLike"
  | bool => "Bool"
  | int => "Int"
  | itemEffect => "ItemEffect"

/-- The weight of a type in the number of a set. -/
def weight : TypeTag → Nat
  | termLike => 1
  | bool => 2
  | int => 4
  | itemEffect => 8

end TypeTag

/-- A set of types. -/
structure TypeSet where
  termLike : Bool
  bool : Bool
  int : Bool
  itemEffect : Bool
deriving DecidableEq

namespace TypeSet

/-- Membership. -/
def has (s : TypeSet) : TypeTag → Bool
  | .termLike => s.termLike
  | .bool => s.bool
  | .int => s.int
  | .itemEffect => s.itemEffect

/-- The set of the types that pass a test. -/
def filter (p : TypeTag → Bool) : TypeSet := ⟨p .termLike, p .bool, p .int, p .itemEffect⟩

/-- The members of the set are the types that pass the test. -/
@[simp] theorem has_filter (p : TypeTag → Bool) (t : TypeTag) : (filter p).has t = p t := by
  cases t <;> rfl

/-- The set without members. -/
def empty : TypeSet := filter fun _ => false

/-- The set with one member. -/
def singleton (ty : TypeTag) : TypeSet := filter fun t => t == ty

/-- The set of the types in a list. -/
def ofList (tys : List TypeTag) : TypeSet := filter fun t => tys.contains t

/-- The members in the order of the types. -/
def toList (s : TypeSet) : List TypeTag := TypeTag.all.filter s.has

/-- The types in either set. -/
def union (s t : TypeSet) : TypeSet := filter fun ty => s.has ty || t.has ty

/-- The types in both sets. -/
def inter (s t : TypeSet) : TypeSet := filter fun ty => s.has ty && t.has ty

/-- The types in the first set that are not in the second one. -/
def diff (s t : TypeSet) : TypeSet := filter fun ty => s.has ty && !t.has ty

/-- The types in just one of the two sets. -/
def symmDiff (s t : TypeSet) : TypeSet := filter fun ty => s.has ty != t.has ty

/-- The types that are not in the set. -/
def compl (s : TypeSet) : TypeSet := filter fun ty => !s.has ty

/-- Every type of the second set is in the first one. -/
def includes (s t : TypeSet) : Bool := TypeTag.all.all fun ty => !t.has ty || s.has ty

/-- There are no members. -/
def isEmpty (s : TypeSet) : Bool := s == empty

/-- The number of a set: the sum of the weights of its members. -/
def bits (s : TypeSet) : Nat := s.toList.foldl (fun n ty => n + ty.weight) 0

/-- The last member in the order of the types. -/
def greatest? (s : TypeSet) : Option TypeTag := s.toList.getLast?

/-- The members between braces. -/
def text (s : TypeSet) : String :=
  "\x7b" ++ String.intercalate ", " (s.toList.map TypeTag.label) ++ "\x7d"

end TypeSet

end EffectLang
