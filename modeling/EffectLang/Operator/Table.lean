import EffectLang.Operator.Trie

/-!
# Operator tables

What a reader of text has to know of a catalog: its prefix tree, and its reserved characters, which
are those that occur in some operator and therefore in no name or number.
-/

namespace EffectLang

/-- The operators of a catalog, prepared for reading. -/
structure OperatorTable where
  trie : Trie
  reserved : List Char

namespace OperatorTable

/-- The table of a catalog. -/
def ofCatalog (ops : List String) : OperatorTable :=
  ⟨Trie.ofList ops, (ops.flatMap String.toList).eraseDups⟩

/-- Occurs in some operator. -/
def isReserved (table : OperatorTable) (c : Char) : Bool := table.reserved.contains c

/-- The reserved characters are those of the operators. -/
theorem isReserved_ofCatalog {ops : List String} {c : Char} :
    (ofCatalog ops).isReserved c = true ↔ ∃ op ∈ ops, c ∈ op.toList := by
  simp [isReserved, ofCatalog]

end OperatorTable

end EffectLang
