import EffectLang.Diagnostic.Basic

/-!
# Snippets

What is to be drawn of a diagnostic under the text that it is about.  Labels are clamped to the
text, so that a diagnostic that points past its end is drawn too, and all that a diagnostic notes
or suggests is put together.  How a snippet is drawn is left to the one who draws it.
-/

namespace EffectLang

/-- A label to be drawn: the characters that it underlines, and what it says of them. -/
structure Arrow where
  span : Stretch
  message : String
deriving DecidableEq

/-- What is to be drawn under a text. -/
structure Snippet where
  severity : Severity
  code : DiagnosticCode
  message : String
  /-- The number of the character that the heading names. -/
  start : Nat
  arrows : List Arrow
  note : Option String
  help : Option String
deriving DecidableEq

namespace Diagnostic

/-- Lines put together, if there are any. -/
def remark? (lines : List String) : Option String :=
  if lines.isEmpty then none else some (String.intercalate "\n" lines)

/-- What is to be drawn of a diagnostic under a text of `size` characters. -/
def snippet (d : Diagnostic) (size : Nat) : Snippet where
  severity := d.severity
  code := d.code
  message := d.message
  start := (d.primarySpan?.map fun s => (s.clamp size).start).getD 0
  arrows := d.labels.map fun l => ⟨l.span.clamp size, l.message⟩
  note := remark? d.notes
  help := remark? d.suggestions

/-- A diagnostic drawn under a text by `draw`. -/
def render (draw : Snippet → String → String) (d : Diagnostic) (source : String) : String :=
  draw (d.snippet source.length) source

end Diagnostic

end EffectLang
