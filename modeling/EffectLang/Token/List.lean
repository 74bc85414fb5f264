import EffectLang.Token.Basic

/-!
# Token lists

The tokens of a text in order.  A text of white space alone has no token to own it, so the list
keeps such text itself.
-/

namespace EffectLang

/-- The tokens of a text, and the text that belongs to none of them. -/
structure TokenList where
  tokens : List Token
  /-- White space that belongs to no token. -/
  trailing : String
deriving DecidableEq

namespace TokenList

/-- No tokens and no text. -/
def empty : TokenList := ⟨[], ""⟩

/-- Tokens, and no text besides. -/
def ofList (tokens : List Token) : TokenList := ⟨tokens, ""⟩

/-- Adds a token at the end. -/
def push (l : TokenList) (t : Token) : TokenList := { l with tokens := l.tokens ++ [t] }

/-- The same tokens with other text behind them. -/
def withTrailing (l : TokenList) (text : String) : TokenList := { l with trailing := text }

/-- The number of tokens. -/
def length (l : TokenList) : Nat := l.tokens.length

/-- There are no tokens; there may be text. -/
def isEmpty (l : TokenList) : Bool := l.tokens.isEmpty

/-- The token with a number, counted from 0. -/
def get? (l : TokenList) (i : Nat) : Option Token := l.tokens[i]?

/-- The text that the tokens make up. -/
def text (l : TokenList) : String :=
  String.join (l.tokens.map Token.fullText) ++ l.trailing

/-- The tokens, for inspection. -/
def inspect (l : TokenList) : String :=
  "[" ++ String.intercalate ", " (l.tokens.map Token.inspect) ++ "]"

end TokenList

end EffectLang
