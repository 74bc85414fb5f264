/-!
# Quoted text

A text between double quotes.  A quote, a backslash, a line feed, a carriage return and a tab are
written with a backslash; every other character stands for itself.
-/

namespace EffectLang.Text

/-- A character as it is written between quotes. -/
def escape : Char → String
  | '"' => "\\\""
  | '\\' => "\\\\"
  | '\n' => "\\n"
  | '\r' => "\\r"
  | '\t' => "\\t"
  | c => String.singleton c

/-- A text between quotes. -/
def quoted (text : String) : String :=
  "\"" ++ String.join (text.toList.map escape) ++ "\""

end EffectLang.Text
