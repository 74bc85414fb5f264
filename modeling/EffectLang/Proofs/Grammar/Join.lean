import EffectLang.Proofs.Expr.Effect
import EffectLang.Proofs.Grammar.Shape

/-!
# Joining trees

Two effects joined by `>>`, or a condition in front of an effect, are rarely a node on top of two
trees: the operators group to the right, and `=>` binds tighter than `>>`.  `Expr.followedBy` hangs
a chain behind the last link of another one, and `Expr.guardedBy` puts a condition in front of the
first link.

Both write down the tokens of their parts with the operator between them, keep chains chains and
effects effects.  So each is the tree that the parser makes of the joined tokens.  Parentheses are
simpler: they do put a node on top of the tree inside (`parse_enclosed`).
-/

namespace EffectLang

namespace Expr

/-- Two chains in a row, grouped to the right. -/
def followedBy : Expr → Token → Expr → Expr
  | chaining link op rest, operator, second => chaining link op (rest.followedBy operator second)
  | first, operator, second => chaining first operator second

/-- A chain with a condition in front, which guards the first link only. -/
def guardedBy (condition : Expr) (operator : Token) : Expr → Expr
  | chaining link op rest => chaining (conditional condition operator link) op rest
  | effect => conditional condition operator effect

lemma tokens_followedBy (first : Expr) (op : Token) (second : Expr) :
    (first.followedBy op second).tokens = first.tokens ++ op :: second.tokens := by
  fun_induction followedBy first op second with
  | case1 link o rest operator second ih => simp [tokens_chaining, ih]
  | case2 first operator second hne => exact tokens_chaining first operator second

lemma tokens_guardedBy (condition : Expr) (op : Token) (effect : Expr) :
    (condition.guardedBy op effect).tokens = condition.tokens ++ op :: effect.tokens := by
  fun_cases guardedBy condition op effect with
  | case1 link o rest => simp [tokens_chaining, tokens_conditional]
  | case2 effect hne => exact tokens_conditional condition op effect

/-- Two effects chained are an effect. -/
lemma Effect.followedBy {first second : Expr} {op : Token} (hf : Effect first)
    (hop : op.kind = .operator ">>") (hs : Effect second) :
    Effect (first.followedBy op second) := by
  fun_induction Expr.followedBy first op second with
  | case1 link o rest operator second ih =>
      cases hf with
      | chaining hlink ho hrest => exact .chaining hlink ho (ih hrest hop hs)
  | case2 first operator second hne => exact .chaining hf hop hs

/-- An effect under a condition is an effect. -/
lemma Effect.guardedBy {condition effect : Expr} {op : Token} {k : TokenKind}
    (hc : Datum k condition) (hk : k.isCondition = true) (hop : op.kind = .operator "=>")
    (he : Effect effect) : Effect (condition.guardedBy op effect) := by
  fun_cases Expr.guardedBy condition op effect with
  | case1 link o rest =>
      cases he with
      | chaining hlink ho hrest => exact .chaining (.conditional hc hk hop hlink) ho hrest
  | case2 effect hne => exact .conditional hc hk hop he

end Expr

namespace Grammar

/-- Two chains joined by `>>` are a chain. -/
lemma Shaped.followedBy {first second : Expr} {op : Token} (hf : Shaped .chain first)
    (hop : op.kind = .operator ">>") (hs : Shaped .chain second) :
    Shaped .chain (first.followedBy op second) := by
  fun_induction Expr.followedBy first op second with
  | case1 link o rest operator second ih =>
      obtain ⟨hlink, ho, hrest⟩ := hf.chaining_inv
      exact .chaining hlink ho (ih hrest hop hs)
  | case2 first operator second hne => exact .chaining (hf.conditional_of_chain hne) hop hs

/-- A condition joined to a chain is a chain: it guards the first link. -/
lemma Shaped.guardedBy {condition effect : Expr} {op : Token}
    (hc : Shaped .assignment condition) (hop : op.kind = .operator "=>")
    (he : Shaped .chain effect) : Shaped .chain (condition.guardedBy op effect) := by
  fun_cases Expr.guardedBy condition op effect with
  | case1 link o rest =>
      obtain ⟨hlink, ho, hrest⟩ := he.chaining_inv
      exact .chaining (.conditional hc hop hlink) ho hrest
  | case2 effect hne =>
      exact .ofConditional (.conditional hc hop (he.conditional_of_chain hne))

lemma Shaped.chain_grouping {opening closing : Token} {inner : Expr}
    (ho : opening.kind = .paren .left) (hi : Shaped .chain inner)
    (hc : closing.kind = .paren .right) : Shaped .chain (.grouping opening inner closing) :=
  .chain_of_assignment (.ofPrimary (.grouping ho hi hc))

/-- What is parsed may be put in parentheses. -/
lemma parse_enclosed {ts : List Token} {e : Expr} {opening closing : Token}
    (ho : opening.kind = .paren .left) (h : parse ts = .ok e) (hc : closing.kind = .paren .right) :
    parse (opening :: (ts ++ [closing])) = .ok (.grouping opening e closing) := by
  obtain ⟨rfl, hshape⟩ := shaped_of_parse h
  rw [← Expr.tokens_grouping]
  exact parse_tokens (.chain_grouping ho hshape hc)

end Grammar

end EffectLang
