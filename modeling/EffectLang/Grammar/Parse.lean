import EffectLang.Expr.Basic
import EffectLang.Grammar.Cursor
import EffectLang.Grammar.Error

/-!
# Parsing

The grammar of effects, loosest level first:

```
chain       = conditional [ ">>" chain ]
conditional = assignment [ "=>" conditional ]
assignment  = primary [ "++" | "--" | ( "+=" | "-=" ) primary ]
primary     = "(" chain ")" | name | number | logic string
```

The tokens are read from left to right by an automaton with a stack of constructs that still wait
for their right end.  The automaton never has to look ahead, and it refuses the first token after
which no effect can be completed.  Nothing here returns to an earlier token, so groups may be
nested to any depth.
-/

namespace EffectLang.Grammar

/-- A construct that has begun and waits for what comes after its last token. -/
inductive Pending where
  /-- `(` -/
  | group (opening : Token)
  /-- `first >>` -/
  | chain (first : Expr) (operator : Token)
  /-- `condition =>` -/
  | guard (condition : Expr) (operator : Token)
  /-- `target +=` or `target -=` -/
  | update (target : Expr) (operator : Token)

/-- What the tokens read so far amount to.  The stack lists the pending constructs, innermost
first. -/
inductive State where
  /-- An operand has to come next. -/
  | wanting (stack : List Pending)
  /-- An operand is complete.  `primary` says that it is a primary, to which `++` or `+=` may be
  attached. -/
  | holding (primary : Bool) (e : Expr) (stack : List Pending)

/-- Why a token, or the end, cannot come next. -/
inductive Fault where
  /-- A token that is no operand, or the end, where an operand had to come. -/
  | operandExpected (context : Context) (found : Option Token)
  /-- Neither the end of the innermost group nor anything that may come before it. -/
  | groupUnclosed (opening : Token)
  /-- A token after a complete effect. -/
  | surplus (found : Token)

namespace Pending

/-- The innermost construct that waits for an operand. -/
def context : Pending → Context
  | group _ => .grouping
  | chain _ _ => .chaining
  | guard _ _ => .conditional
  | update _ _ => .assignment

/-- The innermost group that is open. -/
def openGroup? : List Pending → Option Token
  | [] => none
  | group opening :: _ => some opening
  | _ :: stack => openGroup? stack

/-- Completes the conditionals on top of the stack, the innermost first. -/
def closeGuards : Expr → List Pending → Expr × List Pending
  | e, guard condition operator :: stack =>
    closeGuards (.conditional condition operator e) stack
  | e, stack => (e, stack)

/-- Completes everything down to the innermost open group. -/
def closeAll : Expr → List Pending → Expr × List Pending
  | e, guard condition operator :: stack => closeAll (.conditional condition operator e) stack
  | e, chain first operator :: stack => closeAll (.chaining first operator e) stack
  | e, stack => (e, stack)

end Pending

namespace State

/-- The innermost construct that waits for an operand. -/
def context : List Pending → Context
  | [] => .effect
  | p :: _ => p.context

/-- Takes a primary: it is the value of an assignment that waits for one, or stands for itself. -/
def receive (e : Expr) : List Pending → State
  | .update target operator :: stack => holding false (.assignment target operator e) stack
  | stack => holding true e stack

/-- Why a token cannot come after a complete operand. -/
def refuse (t : Token) (stack : List Pending) : Fault :=
  match Pending.openGroup? stack with
  | some opening => .groupUnclosed opening
  | none => .surplus t

/-- Takes a token after a complete operand that is no operator it could carry. -/
def close (t : Token) (e : Expr) (stack : List Pending) : Except Fault State :=
  if t.isParen .right then
    match Pending.closeAll e stack with
    | (inner, .group opening :: outer) => .ok (receive (.grouping opening inner t) outer)
    | _ => .error (refuse t stack)
  else
    .error (refuse t stack)

/-- What the tokens read so far amount to together with the next one, or why it cannot come next. -/
def step : State → Token → Except Fault State
  | wanting stack, t =>
    if t.isParen .left then .ok (wanting (.group t :: stack))
    else if t.isAtom then .ok (receive (.atom t) stack)
    else .error (.operandExpected (context stack) (some t))
  | holding primary e stack, t =>
    match t.operatorClass? with
    | some .postfixed =>
      if primary then .ok (holding false (.increment e t) stack) else .error (refuse t stack)
    | some .assignment =>
      if primary then .ok (wanting (.update e t :: stack)) else .error (refuse t stack)
    | some .conditional => .ok (wanting (.guard e t :: stack))
    | some .chaining =>
      let (link, outer) := Pending.closeGuards e stack
      .ok (wanting (.chain link t :: outer))
    | none => close t e stack

/-- What the tokens read so far amount to if no more come. -/
def finish : State → Except Fault Expr
  | wanting stack => .error (.operandExpected (context stack) none)
  | holding _ e stack =>
    match Pending.openGroup? stack with
    | some opening => .error (.groupUnclosed opening)
    | none => .ok (Pending.closeAll e stack).1

/-- Reads the tokens from number `position` on.  A fault comes with the number of the token that it
was found at. -/
def run : State → Nat → List Token → Except (Fault × Nat) Expr
  | s, position, [] =>
    match s.finish with
    | .ok e => .ok e
    | .error fault => .error (fault, position)
  | s, position, t :: ts =>
    match s.step t with
    | .ok next => run next (position + 1) ts
    | .error fault => .error (fault, position)

end State

/-- The error that a fault at the place of a cursor is reported as. -/
def Fault.error (cursor : Cursor) : Fault → ParseError
  | operandExpected context (some t) =>
    (ParseError.expectedOperand t.span t.describe).inContext context
  | operandExpected context none =>
    (ParseError.unexpectedEndOfInput cursor.endSpan).inContext context
  | groupUnclosed opening =>
    (ParseError.unclosedParen opening.span cursor.currentSpan).inContext .grouping
  | surplus t =>
    if t.isParen .right then ParseError.unmatchedCloseParen t.span
    else ParseError.trailingTokens cursor.remainingSpan t.describe

/-- Reads a list of tokens as exactly one effect. -/
def parse (tokens : List Token) : Except ParseError Expr :=
  match tokens with
  | [] => .error ParseError.emptyInput
  | _ =>
    match (State.wanting []).run 0 tokens with
    | .ok e => .ok e
    | .error (fault, position) => .error (fault.error ⟨tokens, position⟩)

end EffectLang.Grammar
