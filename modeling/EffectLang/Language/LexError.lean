import EffectLang.Diagnostic.Basic

/-!
# Lexical errors

Why a text cannot be cut into tokens: a logic string that is not closed, operator characters that
do not spell an operator, or a character that no token starts with.
-/

namespace EffectLang

/-- The first fault of a text, with the place where it begins. -/
inductive LexError where
  /-- The string that `delimiter` opens at `start` is not closed. -/
  | unterminatedString (start : Offset) (delimiter : Char)
  /-- `text`, at `span`, was read for an operator and is none. -/
  | invalidOperator (span : Span) (text : String)
  /-- No token starts with `char`, at `start`. -/
  | unexpectedCharacter (start : Offset) (char : Char)
deriving DecidableEq

/-- What was being read. -/
inductive LexContext where
  | topLevel
  | insideString (start : Offset)
  | insideOperator (start : Offset)
deriving DecidableEq

/-- The remark that a report makes on what was being read. -/
def LexContext.description : LexContext → String
  | topLevel => "while looking for the next token"
  | insideString start =>
    "while reading the logic string opened at position " ++ Text.Numeral.ofNat start.toNat
  | insideOperator start =>
    "while reading the operator starting at position " ++ Text.Numeral.ofNat start.toNat

namespace LexError

/-- Where the fault is: the character that begins it, or all characters taken for an operator. -/
def span : LexError → Span
  | unterminatedString start _ => Span.inclusive start start
  | invalidOperator span _ => span
  | unexpectedCharacter start _ => Span.inclusive start start

/-- What was being read at the fault. -/
def context : LexError → LexContext
  | unterminatedString start _ => .insideString start
  | invalidOperator span _ => .insideOperator span.start
  | unexpectedCharacter _ _ => .topLevel

/-- The code of the fault. -/
def code : LexError → DiagnosticCode
  | unterminatedString _ _ => .unterminatedString
  | invalidOperator _ _ => .invalidOperator
  | unexpectedCharacter _ _ => .unexpectedCharacter

/-- What is wrong, without the place. -/
def fault : LexError → String
  | unterminatedString _ _ => "unterminated logic string"
  | invalidOperator _ text => "invalid operator `" ++ text ++ "`"
  | unexpectedCharacter _ char => "unexpected character `" ++ String.singleton char ++ "`"

/-- How the fault could be mended. -/
def suggestions : LexError → List String
  | unterminatedString _ delimiter => ["add a closing `" ++ String.singleton delimiter ++ "`"]
  | invalidOperator _ _ => ["separate operators with whitespace, or check the operator spelling"]
  | unexpectedCharacter _ _ => []

/-- What is said of the place of the fault. -/
def label : LexError → String
  | unterminatedString _ _ => "logic string opened here is never closed"
  | invalidOperator _ _ => "not a recognized operator"
  | unexpectedCharacter _ _ => "no token can start here"

/-- What is wrong, and where. -/
def message (e : LexError) : String :=
  e.fault ++ " at position " ++ Text.Numeral.ofNat e.span.start.toNat

/-- The report of the fault. -/
def diagnostic (e : LexError) : Diagnostic :=
  e.suggestions.foldl Diagnostic.withSuggestion
    ((((Diagnostic.error e.code).withMessage e.fault).withLabel e.span e.label).withNote
      e.context.description)

end LexError

end EffectLang
