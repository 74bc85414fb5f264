import EffectLang.Span
import EffectLang.Text.Quoted

/-!
# Tokens

A token has a kind, the span of its content, and the text on both sides of the content that
belongs to it.  For a name, a number, an operator or a parenthesis that text is white space; the
delimiters of a logic string belong to it too, so that the content is the bare body.

Writing out `fullText` of every token of a text gives the text back, character for character.
-/

namespace EffectLang

/-- The two parentheses. -/
inductive Paren where
  | left
  | right
deriving DecidableEq

/-- The character that a parenthesis is written as. -/
def Paren.char : Paren → Char
  | left => '('
  | right => ')'

/-- What a token is, with what it says. -/
inductive TokenKind where
  /-- A bare name such as `Grubsong`. -/
  | name (text : String)
  /-- An integer, written as its canonical decimal text. -/
  | number (value : Int32)
  /-- An operator of the catalog in force, such as `+=`. -/
  | operator (symbol : String)
  | paren (side : Paren)
  /-- A logic string, without its delimiters. -/
  | logic (body : String)
deriving DecidableEq

namespace TokenKind

/-- What an error message calls a token. -/
def describe : TokenKind → String
  | name text => "name `" ++ text ++ "`"
  | number value => "number `" ++ Text.Numeral.ofInt value.toInt ++ "`"
  | operator symbol => "operator `" ++ symbol ++ "`"
  | paren side => "`" ++ String.singleton side.char ++ "`"
  | logic _ => "logic string"

/-- The content of a token, as it stands in the text. -/
def content : TokenKind → String
  | name text => text
  | number value => Text.Numeral.ofInt value.toInt
  | operator symbol => symbol
  | paren side => String.singleton side.char
  | logic body => body

/-- Names, numbers and logic strings can stand alone. -/
def isAtom : TokenKind → Bool
  | name _ => true
  | number _ => true
  | logic _ => true
  | operator _ => false
  | paren _ => false

/-- The kind with its value, for inspection. -/
def inspect : TokenKind → String
  | name text => "Name(" ++ Text.quoted text ++ ")"
  | number value => "Number(" ++ Text.Numeral.ofInt value.toInt ++ ")"
  | operator symbol => "Operator(" ++ Text.quoted symbol ++ ")"
  | paren .left => "Structural(OpenParen)"
  | paren .right => "Structural(CloseParen)"
  | logic body => "LogicString(" ++ Text.quoted body ++ ")"

/-- A word is a number exactly when it is the canonical text of a 32-bit value; otherwise it is a
name.  Either way the content of the token is the word. -/
def ofWord (word : String) : TokenKind :=
  match Text.Numeral.readInt32? word with
  | some value => number value
  | none => name word

/-- A word is the content of its token, whether it is a name or a number. -/
theorem content_ofWord (word : String) : (ofWord word).content = word := by
  simp only [ofWord]
  split
  · rename_i h
    exact Text.Numeral.ofInt_of_readInt32? h
  · rfl

end TokenKind

/-- A token with its place and the text around it. -/
structure Token where
  kind : TokenKind
  /-- The offsets of the content, without the text around it. -/
  span : Span
  leading : String
  trailing : String
deriving DecidableEq

namespace Token

/-- A token that stands nowhere in particular. -/
def bare (kind : TokenKind) : Token := ⟨kind, Span.point 0, "", ""⟩

/-- The offset of the first character of the content. -/
def firstOffset (t : Token) : Offset := t.span.start

/-- The offset of the last character of the content. -/
def lastOffset (t : Token) : Offset := t.span.last

/-- The content of a token, as it stands in the text. -/
def content (t : Token) : String := t.kind.content

/-- The content with the text around it that belongs to the token. -/
def fullText (t : Token) : String := t.leading ++ t.content ++ t.trailing

/-- Names, numbers and logic strings can stand alone. -/
def isAtom (t : Token) : Bool := t.kind.isAtom

/-- What an error message calls a token. -/
def describe (t : Token) : String := t.kind.describe

/-- The text of a name. -/
def name? (t : Token) : Option String :=
  match t.kind with
  | .name text => some text
  | _ => none

/-- The text of an operator. -/
def operator? (t : Token) : Option String :=
  match t.kind with
  | .operator symbol => some symbol
  | _ => none

/-- Is this operator. -/
def isOperator (t : Token) (symbol : String) : Bool := t.operator? == some symbol

/-- The side of a parenthesis. -/
def paren? (t : Token) : Option Paren :=
  match t.kind with
  | .paren side => some side
  | _ => none

/-- Is the parenthesis of this side. -/
def isParen (t : Token) (side : Paren) : Bool := t.paren? == some side

/-- A token with its place and the text around it, for inspection. -/
def inspect (t : Token) : String :=
  t.kind.inspect ++ " @ " ++ t.span.text ++ " [" ++ Text.quoted t.leading ++ "|" ++
    Text.quoted t.trailing ++ "]"

end Token

end EffectLang
