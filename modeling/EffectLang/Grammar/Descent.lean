import EffectLang.Grammar.Parse

/-!
# Recursive descent

The parser as it goes through the grammar: one function for each level, the loosest one first, and
one for groups.

```
chain       = conditional [ ">>" chain ]
conditional = assignment [ "=>" conditional ]
assignment  = primary [ "++" | "--" | ( "+=" | "-=" ) primary ]
primary     = grouping | name | number | logic string
grouping    = "(" chain ")"
```

A level that waits for an operand gives its context to the error of this operand, if the error has
no narrower one.

What a level reads comes with the place behind it, which is further on (`Parsed`).  So a level may
call itself behind an operator, and the loosest level may be called again in a group; and at one
place every level calls tighter ones only.
-/

namespace EffectLang.Grammar

namespace Cursor

/-- How many tokens are still to come. -/
def remaining (c : Cursor) : Nat := c.count - c.position

/-- The place behind the current token. -/
def next (c : Cursor) : Cursor := { c with position := c.position + 1 }

/-- What is passed is the current token. -/
theorem advance_of_current? {c : Cursor} {t : Token} (h : c.current? = some t) :
    c.advance = (some t, c.next) := by
  rw [advance, h]
  rfl

/-- Behind the current token there is less to come. -/
theorem remaining_next_lt {c : Cursor} {t : Token} (h : c.current? = some t) :
    c.next.remaining < c.remaining := by
  have hlt : c.position < c.tokens.length := (List.getElem?_eq_some_iff.1 h).1
  simp only [remaining, next, count]
  omega

end Cursor

/-- Something that was read from a place on, and the place behind it. -/
structure Parsed (α : Type) (c : Cursor) where
  value : α
  next : Cursor
  lt : next.remaining < c.remaining

namespace Descent

/-- Passes the current token and gives it. -/
def bump (c : Cursor) : Except ParseError (Parsed Token c) :=
  match h : c.current? with
  | some t => .ok ⟨t, c.advance.2, by
      rw [Cursor.advance_of_current? h]
      exact Cursor.remaining_next_lt h⟩
  | none => .error (.unexpectedEndOfInput c.endSpan)

mutual

/-- `conditional [ ">>" chain ]` -/
def chain (c : Cursor) : Except ParseError (Parsed Expr c) := do
  let left ← conditional c
  if left.next.isAtClass .chaining then
    let operator ← bump left.next
    have hlt := Nat.lt_trans operator.lt left.lt
    let right ← (chain operator.next).mapError (·.inContext .chaining)
    return ⟨.chaining left.value operator.value right.value, right.next, Nat.lt_trans right.lt hlt⟩
  else return left
termination_by (c.remaining, 4)

/-- `assignment [ "=>" conditional ]` -/
def conditional (c : Cursor) : Except ParseError (Parsed Expr c) := do
  let condition ← assignment c
  if condition.next.isAtClass .conditional then
    let operator ← bump condition.next
    have hlt := Nat.lt_trans operator.lt condition.lt
    let effect ← (conditional operator.next).mapError (·.inContext .conditional)
    return ⟨.conditional condition.value operator.value effect.value, effect.next,
      Nat.lt_trans effect.lt hlt⟩
  else return condition
termination_by (c.remaining, 3)

/-- `primary [ "++" | "--" | ( "+=" | "-=" ) primary ]` -/
def assignment (c : Cursor) : Except ParseError (Parsed Expr c) := do
  let operand ← primary c
  match operand.next.operatorClass? with
  | some .postfixed =>
    let operator ← bump operand.next
    return ⟨.increment operand.value operator.value, operator.next,
      Nat.lt_trans operator.lt operand.lt⟩
  | some .assignment =>
    let operator ← bump operand.next
    have hlt := Nat.lt_trans operator.lt operand.lt
    let value ← (primary operator.next).mapError (·.inContext .assignment)
    return ⟨.assignment operand.value operator.value value.value, value.next,
      Nat.lt_trans value.lt hlt⟩
  | _ => return operand
termination_by (c.remaining, 2)

/-- A group, or a token that stands alone. -/
def primary (c : Cursor) : Except ParseError (Parsed Expr c) :=
  match c.current? with
  | none => .error (.unexpectedEndOfInput c.endSpan)
  | some t =>
    if t.isParen .left then grouping c
    else if t.isAtom then do
      let atom ← bump c
      return ⟨.atom atom.value, atom.next, atom.lt⟩
    else .error (.expectedOperand t.span t.describe)
termination_by (c.remaining, 1)

/-- `"(" chain ")"` -/
def grouping (c : Cursor) : Except ParseError (Parsed Expr c) := do
  let opening ← bump c
  have hlt := opening.lt
  Except.mapError (·.inContext .grouping) do
    let inner ← chain opening.next
    if inner.next.isAtParen .right then
      let closing ← bump inner.next
      return ⟨.grouping opening.value inner.value closing.value, closing.next,
        Nat.lt_trans closing.lt (Nat.lt_trans inner.lt hlt)⟩
    else throw (.unclosedParen opening.value.span inner.next.currentSpan)
termination_by (c.remaining, 0)

end

/-- Reads a list of tokens as exactly one effect. -/
def parse (tokens : List Token) : Except ParseError Expr := do
  let start := Cursor.ofList tokens
  if start.atEnd then throw .emptyInput
  let root ← chain start
  match root.next.current? with
  | none => return root.value
  | some t =>
    if t.isParen .right then throw (.unmatchedCloseParen t.span)
    else throw (.trailingTokens root.next.remainingSpan t.describe)

end Descent

end EffectLang.Grammar
