/-
  Shc/Parse/Basic.lean
  ====================
  Parsers as functions on the tokens still to consume.  A parser answers with a
  value or an error, and in both cases with the tokens that are left: parsing can
  go on behind an error.

  The grammar is written once, for every kind of state that tokens can be taken
  from; `Input` is all that it knows of the state and of the errors.  A `Parser` is
  the case of the tokens alone.

  Consuming a token looks at the one after it.  If that one is a lexical error,
  the error is reported at once, whatever the grammar would have asked for.

  `iterate` is the only loop.  Each round either ends it or consumes a token, and it
  stops where a round consumes nothing, so that it ends on every input.
-/
import Shc.Parse.Error
import Shc.Token.Stream

namespace Shc

/-- States `σ` with tokens in them, and errors `ε` to stop with. -/
class Input (σ : Type) (ε : outParam Type) where
  tokens : σ → Stream
  setTokens : Stream → σ → σ
  error : ParseError → ε

/-- A function that consumes tokens and gives a value or an error. -/
abbrev Parser := EStateM ParseError Stream

instance : Input Stream ParseError where
  tokens s := s
  setTokens s _ := s
  error e := e

namespace Parser

variable {σ ε α β : Type} [Input σ ε]

def peek : EStateM ε σ Token := do
  return (Input.tokens (← get)).current

/-- Fail with a reason and the text that it concerns. -/
def fail (kind : ParseError.Kind) (span : Span) : EStateM ε σ α :=
  throw (Input.error σ ⟨kind, span⟩)

/-- Fail because the current token is not what the grammar asks for. -/
def unexpected (expected : String) : EStateM ε σ α := do
  let t ← peek
  fail (.unexpected expected t.kind) t.span

/-- Fail because one more construct would be open than is allowed. -/
def tooDeep : EStateM ε σ α := do
  fail .nestingTooDeep (← peek).span

/-- Fail if the current token is a lexical error. -/
def checked : EStateM ε σ Unit := do
  let t ← peek
  match t.kind with
  | .error e => fail (.lex e) t.span
  | _ => return ()

def advance : EStateM ε σ Token := do
  let t ← peek
  modify fun s => if t.isTerminal then s else Input.setTokens (Input.tokens s).tail s
  checked
  return t

/-- Consume the current token if it is of the given kind. -/
def accept (kind : Token.Kind) : EStateM ε σ Bool := do
  if (← peek).kind = kind then
    let _ ← advance
    return true
  else return false

/-- Consume a token of the given kind, which messages call `what`. -/
def expect (kind : Token.Kind) (what : String) : EStateM ε σ Unit := do
  if (← peek).kind = kind then
    let _ ← advance
  else unexpected what

def name (what : String) : EStateM ε σ (String × Span) := do
  let t ← peek
  match t.kind with
  | .ident name =>
    let _ ← advance
    return (name, t.span)
  | _ => unexpected what

/-- Repeat `step` from `b` until it gives nothing or consumes nothing. -/
def iterate (step : β → EStateM ε σ (Option β)) (b : β) : EStateM ε σ β := fun s =>
  match step b s with
  | .error e s' => .error e s'
  | .ok none s' => .ok b s'
  | .ok (some b') s' =>
    if (Input.tokens s').size < (Input.tokens s).size then iterate step b' s' else .ok b' s'
termination_by s => (Input.tokens s).size

/-- One `p` or several, with commas between them. -/
def commaList (p : EStateM ε σ α) : EStateM ε σ (List α) := do
  let first ← p
  iterate (fun found => do
    if ← accept (.symbol .comma) then return some (found ++ [← p]) else return none) [first]

end Parser

end Shc
