import EffectLang.Operator.Basic

/-!
# Token cursors

A place in a list of tokens.  There is no token for the end of the list: at the end there is no
current token.
-/

namespace EffectLang.Grammar

/-- A list of tokens and a place in it. -/
structure Cursor where
  tokens : List Token
  /-- The index of the current token. -/
  position : Nat

namespace Cursor

/-- In front of the first token. -/
def ofList (tokens : List Token) : Cursor := ⟨tokens, 0⟩

/-- The number of all tokens, those that were passed among them. -/
def count (c : Cursor) : Nat := c.tokens.length

/-- The current token; at the end there is none. -/
def current? (c : Cursor) : Option Token := c.tokens[c.position]?

/-- All tokens were passed. -/
def atEnd (c : Cursor) : Bool := c.count ≤ c.position

/-- Passes the current token and gives it; at the end nothing changes. -/
def advance (c : Cursor) : Option Token × Cursor :=
  match c.current? with
  | some t => (some t, { c with position := c.position + 1 })
  | none => (none, c)

/-- The part that the current token plays in the grammar. -/
def operatorClass? (c : Cursor) : Option OperatorClass := c.current?.bind Token.operatorClass?

/-- The current token is an operator that plays this part. -/
def isAtClass (c : Cursor) (cl : OperatorClass) : Bool := c.operatorClass? == some cl

/-- The current token is this parenthesis. -/
def isAtParen (c : Cursor) (side : Paren) : Bool := c.current?.bind Token.paren? == some side

/-- The point after the content of the last token. -/
def endSpan (c : Cursor) : Span :=
  match c.tokens.getLast? with
  | some t => Span.point t.span.stop
  | none => Span.point 0

/-- Where the current token stands, or else the end. -/
def currentSpan (c : Cursor) : Span :=
  match c.current? with
  | some t => t.span
  | none => c.endSpan

/-- From the current token to the last one. -/
def remainingSpan (c : Cursor) : Span :=
  match c.current?, c.tokens.getLast? with
  | some t, some last => t.span.merge last.span
  | _, _ => c.endSpan

end Cursor

end EffectLang.Grammar
