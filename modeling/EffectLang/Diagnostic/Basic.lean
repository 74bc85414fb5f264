import EffectLang.Diagnostic.Code
import EffectLang.Span

/-!
# Diagnostics

A report of a fault: what is wrong, where, why, and how to mend it.
-/

namespace EffectLang

/-- How grave a diagnostic is. -/
inductive Severity where
  | error
  | warning
  | note
deriving DecidableEq

/-- The word that a diagnostic begins with. -/
def Severity.text : Severity → String
  | error => "error"
  | warning => "warning"
  | note => "note"

/-- A place in the text and what is to be said about it. -/
structure Label where
  span : Span
  message : String
  /-- A primary label marks the fault itself, a secondary one something that explains it. -/
  isPrimary : Bool
deriving DecidableEq

/-- A label as a line of text; an arrow points to a primary one. -/
def Label.text (l : Label) : String :=
  (if l.isPrimary then "  --> " else "      ") ++ l.span.text ++ ": " ++ l.message

/-- A report of a fault. -/
structure Diagnostic where
  code : DiagnosticCode
  severity : Severity
  message : String
  labels : List Label
  notes : List String
  suggestions : List String
deriving DecidableEq

namespace Diagnostic

/-- An error, described by its code until it is given a message. -/
def error (code : DiagnosticCode) : Diagnostic := ⟨code, .error, code.description, [], [], []⟩

/-- The same diagnostic with another severity. -/
def withSeverity (d : Diagnostic) (severity : Severity) : Diagnostic :=
  { d with severity := severity }

/-- The same diagnostic with another message. -/
def withMessage (d : Diagnostic) (message : String) : Diagnostic := { d with message := message }

/-- Adds a primary label. -/
def withLabel (d : Diagnostic) (span : Span) (message : String) : Diagnostic :=
  { d with labels := d.labels ++ [⟨span, message, true⟩] }

/-- Adds a secondary label. -/
def withSecondaryLabel (d : Diagnostic) (span : Span) (message : String) : Diagnostic :=
  { d with labels := d.labels ++ [⟨span, message, false⟩] }

/-- Adds a note. -/
def withNote (d : Diagnostic) (note : String) : Diagnostic := { d with notes := d.notes ++ [note] }

/-- Adds a way to mend the fault. -/
def withSuggestion (d : Diagnostic) (suggestion : String) : Diagnostic :=
  { d with suggestions := d.suggestions ++ [suggestion] }

/-- Where the fault is: the span of the first primary label. -/
def primarySpan? (d : Diagnostic) : Option Span := (d.labels.find? Label.isPrimary).map Label.span

/-- A diagnostic as text: the message, then the labels, the notes and the suggestions, one on a line
each. -/
def text (d : Diagnostic) : String :=
  String.intercalate "\n"
    ((d.severity.text ++ " [" ++ d.code.text ++ "]: " ++ d.message) ::
      d.labels.map Label.text ++ d.notes.map ("  = note: " ++ ·) ++
      d.suggestions.map ("  = help: " ++ ·))

/-- The character that closes what another one opens. -/
def closer : Char → Char
  | '(' => ')'
  | '[' => ']'
  | '\x7b' => '\x7d'
  | c => c

/-- `opening` is where a group was opened by `delimiter`, and `found` where its end was looked for
in vain. -/
def unclosedDelimiter (opening found : Span) (delimiter : Char) : Diagnostic :=
  (error .unclosedDelimiter)
    |>.withMessage ("unclosed delimiter `" ++ String.singleton delimiter ++ "`")
    |>.withLabel found ("expected `" ++ String.singleton (closer delimiter) ++ "`")
    |>.withSecondaryLabel opening "unclosed delimiter opened here"
    |>.withSuggestion ("add `" ++ String.singleton (closer delimiter) ++ "` to close the group")

/-- At `span` an operand had to come, and `found` is there instead. -/
def expectedOperand (span : Span) (found : String) : Diagnostic :=
  (error .expectedOperand)
    |>.withMessage ("expected an operand, found " ++ found)
    |>.withLabel span "expected a name, number, logic string, or `(`"

end Diagnostic

end EffectLang
