import EffectLang.Diagnostic.Snippet
import EffectLang.Expr.Verdict
import EffectLang.Grammar.Parse
import EffectLang.Language.Tokenize

/-!
# From text to verdict

A text is cut into tokens, the tokens are parsed, and the tree is judged.  The first error of
either of the first two steps is the error of the whole.
-/

namespace EffectLang

/-- Why a text is no effect: it has a fault, or its tokens have. -/
inductive EffectError where
  | lexing (e : LexError)
  | parsing (e : Grammar.ParseError)
deriving DecidableEq

namespace EffectError

/-- What is wrong, and in which step it was found. -/
def message : EffectError → String
  | lexing e => "lexing failed: " ++ e.message
  | parsing e => "parsing failed: " ++ e.message

/-- Where the fault is. -/
def span : EffectError → Span
  | lexing e => e.span
  | parsing e => e.span

/-- The code of the fault. -/
def code : EffectError → DiagnosticCode
  | lexing e => e.code
  | parsing e => e.code

/-- The report of the fault. -/
def diagnostic : EffectError → Diagnostic
  | lexing e => e.diagnostic
  | parsing e => e.diagnostic

/-- The error drawn under a text by `draw`. -/
def render (draw : Snippet → String → String) (e : EffectError) (source : String) : String :=
  e.diagnostic.render draw source

end EffectError

/-- A tree with the verdict on it. -/
structure EffectCheck where
  expr : Expr
  valid : Bool
  types : TypeSet
deriving DecidableEq

/-- The tree is legal, and one of its readings is that of an item effect. -/
def EffectCheck.isItemEffect (c : EffectCheck) : Bool := c.valid && c.types.has .itemEffect

namespace Language

/-- The tree of a text. -/
def parse (L : Language) (source : String) : Except EffectError Expr :=
  match L.tokenize source with
  | .error e => .error (.lexing e)
  | .ok list =>
    match Grammar.parse list.tokens with
    | .error e => .error (.parsing e)
    | .ok e => .ok e

/-- The tree of a text, judged. -/
def check (L : Language) (source : String) : Except EffectError EffectCheck :=
  match L.parse source with
  | .error e => .error e
  | .ok e =>
    let verdict := e.check
    .ok ⟨e, verdict.valid, verdict.types⟩

end Language

end EffectLang
