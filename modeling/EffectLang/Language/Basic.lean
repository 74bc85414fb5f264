import EffectLang.Operator.Basic
import EffectLang.Operator.Table
import EffectLang.Text.Blank

/-!
# Languages

What can be chosen about a language of effects: its catalog of operators, and the character that
opens and closes a logic string, if there are logic strings at all.
-/

namespace EffectLang

/-- A catalog of operators, prepared for reading, and a delimiter of logic strings. -/
structure Language where
  table : OperatorTable
  delimiter : Option Char

namespace Language

/-- The language with these operators and this delimiter. -/
def ofCatalog (ops : List String) (delimiter : Option Char) : Language :=
  ⟨OperatorTable.ofCatalog ops, delimiter⟩

/-- The language of item effects: the operators `++ -- += -= => >>`, and logic strings between
backticks. -/
def itemEffects : Language := ofCatalog ItemOperator.catalog (some '`')

/-- Opens and closes logic strings. -/
def isDelimiter (L : Language) (c : Char) : Bool := L.delimiter == some c

/-- Occurs in some operator. -/
def isReserved (L : Language) (c : Char) : Bool := L.table.isReserved c

/-- A character of names and numbers.  A backtick is none, even where it does not delimit
strings. -/
def isWordChar (L : Language) (c : Char) : Bool :=
  !Text.isBlank c && c != '(' && c != ')' && c != '`' && !L.isDelimiter c && !L.isReserved c

end Language

end EffectLang
