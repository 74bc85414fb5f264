/-!
# Codes of diagnostics

A code says in its first digit where the fault was found: 0 in reading tokens, 1 in parsing, 9
inside the program itself.
-/

namespace EffectLang

/-- What kind of fault a diagnostic reports. -/
inductive DiagnosticCode where
  | unterminatedString
  | unexpectedCharacter
  | invalidOperator
  | unexpectedToken
  | expectedOperand
  | unclosedDelimiter
  | trailingTokens
  | emptyInput
  | internalError
deriving DecidableEq

namespace DiagnosticCode

/-- All codes, in the order of their numbers. -/
def all : List DiagnosticCode :=
  [unterminatedString, unexpectedCharacter, invalidOperator, unexpectedToken, expectedOperand,
    unclosedDelimiter, trailingTokens, emptyInput, internalError]

/-- The number of a code, as users see it. -/
def text : DiagnosticCode → String
  | unterminatedString => "E0001"
  | unexpectedCharacter => "E0002"
  | invalidOperator => "E0003"
  | unexpectedToken => "E1001"
  | expectedOperand => "E1002"
  | unclosedDelimiter => "E1003"
  | trailingTokens => "E1004"
  | emptyInput => "E1005"
  | internalError => "E9001"

/-- The code with a given number. -/
def ofText? (s : String) : Option DiagnosticCode := all.find? fun code => code.text == s

/-- The fault in a few words. -/
def description : DiagnosticCode → String
  | unterminatedString => "unterminated logic string"
  | unexpectedCharacter => "unexpected character"
  | invalidOperator => "invalid operator"
  | unexpectedToken => "unexpected token"
  | expectedOperand => "expected operand"
  | unclosedDelimiter => "unclosed delimiter"
  | trailingTokens => "trailing tokens"
  | emptyInput => "empty input"
  | internalError => "internal error"

/-- No two codes have the same number. -/
theorem ofText?_text (code : DiagnosticCode) : ofText? code.text = some code := by
  cases code <;> decide

end DiagnosticCode

end EffectLang
