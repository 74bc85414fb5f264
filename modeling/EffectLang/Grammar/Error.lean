import EffectLang.Diagnostic.Basic

/-!
# Parse errors

Where and why a list of tokens is not an effect.  An error carries the context that it arose in:
the innermost construct that was still waiting for an operand.
-/

namespace EffectLang.Grammar

/-- What was being read when an error arose. -/
inductive Context where
  /-- A whole effect. -/
  | effect
  /-- What follows `>>`. -/
  | chaining
  /-- What follows `=>`. -/
  | conditional
  /-- What follows `+=` or `-=`. -/
  | assignment
  /-- What follows `(`. -/
  | grouping
deriving DecidableEq

/-- What users call a context. -/
def Context.description : Context → String
  | effect => "an item effect"
  | chaining => "a chained effect"
  | conditional => "a conditional effect"
  | assignment => "a compound assignment"
  | grouping => "a parenthesized group"

/-- Why tokens are not an effect. -/
inductive ParseErrorKind where
  | unclosedParen
  | unmatchedCloseParen
  | expectedOperand (found : String)
  | unexpectedEndOfInput
  | trailingTokens (found : String)
  | emptyInput
deriving DecidableEq

namespace ParseErrorKind

/-- What is wrong, without the context. -/
def message : ParseErrorKind → String
  | unclosedParen => "unclosed `(`"
  | unmatchedCloseParen => "unmatched `)`"
  | expectedOperand found => "expected an operand, found " ++ found
  | unexpectedEndOfInput => "unexpected end of input, expected an operand"
  | trailingTokens found => "unexpected " ++ found ++ " after a complete effect"
  | emptyInput => "empty effect"

/-- The code that an error is reported under. -/
def code : ParseErrorKind → DiagnosticCode
  | unclosedParen => .unclosedDelimiter
  | unmatchedCloseParen => .unexpectedToken
  | expectedOperand _ => .expectedOperand
  | unexpectedEndOfInput => .expectedOperand
  | trailingTokens _ => .trailingTokens
  | emptyInput => .emptyInput

end ParseErrorKind

/-- Why and where tokens are not an effect. -/
structure ParseError where
  kind : ParseErrorKind
  span : Span
  context : Context
  /-- A second place: that of the `(` of an unclosed group. -/
  related : Option Span
  hint : Option String
deriving DecidableEq

namespace ParseError

/-- At `found` the group that began at `opening` had to end. -/
def unclosedParen (opening found : Span) : ParseError :=
  ⟨.unclosedParen, found, .effect, some opening, some "add `)` to close the group"⟩

/-- A `)` that no `(` belongs to. -/
def unmatchedCloseParen (span : Span) : ParseError :=
  ⟨.unmatchedCloseParen, span, .effect, none, some "remove this `)` or add a matching `(`"⟩

/-- A token that is no operand, where one had to come. -/
def expectedOperand (span : Span) (found : String) : ParseError :=
  ⟨.expectedOperand found, span, .effect, none, none⟩

/-- The end of the tokens, where an operand had to come. -/
def unexpectedEndOfInput (span : Span) : ParseError :=
  ⟨.unexpectedEndOfInput, span, .effect, none, none⟩

/-- Tokens behind a complete effect, the first of which is `found`. -/
def trailingTokens (span : Span) (found : String) : ParseError :=
  ⟨.trailingTokens found, span, .effect, none, some "join effects with `>>`"⟩

/-- No tokens at all. -/
def emptyInput : ParseError := ⟨.emptyInput, Span.point 0, .effect, none, none⟩

/-- Gives an error a context, unless it has a narrower one already. -/
def inContext (e : ParseError) (context : Context) : ParseError :=
  if e.context = .effect then { e with context := context } else e

/-- A context leaves the kind of an error as it is. -/
@[simp] theorem kind_inContext (e : ParseError) (context : Context) :
    (e.inContext context).kind = e.kind := by
  unfold inContext
  split <;> rfl

/-- A context leaves the place of an error as it is. -/
@[simp] theorem span_inContext (e : ParseError) (context : Context) :
    (e.inContext context).span = e.span := by
  unfold inContext
  split <;> rfl

/-- A context leaves the second place of an error as it is. -/
@[simp] theorem related_inContext (e : ParseError) (context : Context) :
    (e.inContext context).related = e.related := by
  unfold inContext
  split <;> rfl

/-- A context leaves the hint of an error as it is. -/
@[simp] theorem hint_inContext (e : ParseError) (context : Context) :
    (e.inContext context).hint = e.hint := by
  unfold inContext
  split <;> rfl

/-- The code that an error is reported under. -/
def code (e : ParseError) : DiagnosticCode := e.kind.code

/-- What is wrong, and what was being read. -/
def message (e : ParseError) : String :=
  e.kind.message ++ " while parsing " ++ e.context.description

/-- What was being read. -/
def note (e : ParseError) : String := "while parsing " ++ e.context.description

/-- The report without note and hint. -/
def report (e : ParseError) : Diagnostic :=
  match e.kind with
  | .unclosedParen => Diagnostic.unclosedDelimiter (e.related.getD e.span) e.span '('
  | .expectedOperand found => Diagnostic.expectedOperand e.span found
  | .unexpectedEndOfInput => Diagnostic.expectedOperand e.span "end of input"
  | .unmatchedCloseParen =>
    ((Diagnostic.error e.code).withMessage e.kind.message).withLabel e.span
      "no `(` opens this group"
  | .trailingTokens _ =>
    ((Diagnostic.error e.code).withMessage e.kind.message).withLabel e.span
      "the effect already ended"
  | .emptyInput =>
    ((Diagnostic.error e.code).withMessage e.kind.message).withLabel e.span "nothing to parse"

/-- The report of an unclosed group suggests by itself to close it, and leaves out the hint. -/
def diagnostic (e : ParseError) : Diagnostic :=
  match e.kind, e.hint with
  | .unclosedParen, _ => e.report.withNote e.note
  | _, some hint => (e.report.withNote e.note).withSuggestion hint
  | _, none => e.report.withNote e.note

end ParseError

end EffectLang.Grammar
