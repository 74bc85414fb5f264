import EffectLang.Operator.Basic
import Mathlib.Tactic.Lemma

/-!
# Tests on tokens

The parser and the verdict ask a token whether it is a parenthesis, an operator, or an operator of
a class.  Here each of these tests is read as an equation on the kind of the token, with the
symbols written out.
-/

namespace EffectLang

namespace OperatorClass

/-- How the operators of a class are spelled. -/
def symbols : OperatorClass → List String
  | postfixed => ["++", "--"]
  | assignment => ["+=", "-="]
  | conditional => ["=>"]
  | chaining => [">>"]

lemma symbol_mem_symbols (op : ItemOperator) : op.symbol ∈ op.operatorClass.symbols := by
  cases op <;> decide

/-- The operators of a class play its part. -/
lemma operatorClass_of_mem_symbols (cl : OperatorClass) : ∀ symbol ∈ cl.symbols,
    (ItemOperator.ofSymbol? symbol).map ItemOperator.operatorClass = some cl := by
  cases cl <;> decide

end OperatorClass

namespace Token

/-- Parentheses are told by their kind. -/
lemma isParen_iff {t : Token} {side : Paren} : t.isParen side = true ↔ t.kind = .paren side := by
  cases h : t.kind <;> simp [isParen, paren?, h]

lemma operator?_eq_some_iff {t : Token} {symbol : String} :
    t.operator? = some symbol ↔ t.kind = .operator symbol := by
  cases h : t.kind <;> simp [operator?, h]

lemma isOperator_iff {t : Token} {symbol : String} :
    t.isOperator symbol = true ↔ t.kind = .operator symbol := by
  rw [isOperator, beq_iff_eq, operator?_eq_some_iff]

/-- A parenthesis is no operator. -/
lemma operatorClass?_of_paren {t : Token} {side : Paren} (h : t.kind = .paren side) :
    t.operatorClass? = none := by
  simp [operatorClass?, operator?, h]

/-- The class of a token is read off its symbol. -/
theorem operatorClass?_eq_some_iff {t : Token} {cl : OperatorClass} :
    t.operatorClass? = some cl ↔ ∃ symbol ∈ cl.symbols, t.kind = .operator symbol := by
  constructor
  · intro h
    obtain ⟨op, hop, rfl⟩ := Option.map_eq_some_iff.1 h
    obtain ⟨symbol, hsymbol, hof⟩ := Option.bind_eq_some_iff.1 hop
    refine ⟨symbol, ?_, operator?_eq_some_iff.1 hsymbol⟩
    rw [← ItemOperator.ofSymbol?_eq_some_iff.1 hof]
    exact OperatorClass.symbol_mem_symbols op
  · rintro ⟨symbol, hsymbol, hkind⟩
    rw [operatorClass?, operator?_eq_some_iff.2 hkind, Option.bind_some]
    exact cl.operatorClass_of_mem_symbols symbol hsymbol

/-- The operators behind a name. -/
lemma operatorClass?_eq_postfixed {t : Token} : t.operatorClass? = some .postfixed ↔
    t.kind = .operator "++" ∨ t.kind = .operator "--" := by
  simp [operatorClass?_eq_some_iff, OperatorClass.symbols]

/-- The operators between a name and a value. -/
lemma operatorClass?_eq_assignment {t : Token} : t.operatorClass? = some .assignment ↔
    t.kind = .operator "+=" ∨ t.kind = .operator "-=" := by
  simp [operatorClass?_eq_some_iff, OperatorClass.symbols]

/-- The operator between a condition and an effect. -/
lemma operatorClass?_eq_conditional {t : Token} :
    t.operatorClass? = some .conditional ↔ t.kind = .operator "=>" := by
  simp [operatorClass?_eq_some_iff, OperatorClass.symbols]

/-- The operator between two effects. -/
lemma operatorClass?_eq_chaining {t : Token} :
    t.operatorClass? = some .chaining ↔ t.kind = .operator ">>" := by
  simp [operatorClass?_eq_some_iff, OperatorClass.symbols]

end Token

end EffectLang
