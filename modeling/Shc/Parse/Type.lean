/-
  Shc/Parse/Type.lean
  ===================
  Types and parameters:

      params ::= (param ("," param)*)?
      param  ::= name ":" type
      type   ::= "^"* ("int" | "char" | "void")
-/
import Shc.Parse.Basic
import Shc.Scope

namespace Shc.Parser

variable {σ ε : Type} [Input σ ε]

/-- A run of markers; the answer is its length. -/
def markers : EStateM ε σ Nat :=
  iterate (fun n => do
    if ← accept (.symbol .caret) then return some (n + 1) else return none) 0

/-- The base type that a reserved word names. -/
def base? : Token.Kind → Option Base
  | .keyword .intKw => some .int
  | .keyword .charKw => some .char
  | .keyword .voidKw => some .void
  | _ => none

def type : EStateM ε σ Ty := do
  let depth ← markers
  match base? (← peek).kind with
  | some base =>
    let _ ← advance
    return ⟨base, depth⟩
  | none => unexpected "base type (int, char or void)"

def param (scope : Scope) : EStateM ε σ Scope := do
  let (name, span) ← name "parameter name"
  expect (.symbol .colon) "':' after parameter name"
  let type ← type
  match scope.declareParam? ⟨name, type, span.start⟩ with
  | some scope => return scope
  | none => fail (.duplicateDeclaration name) span

/-- The parameters of a function, up to the closing parenthesis. -/
def params : EStateM ε σ Scope := do
  if (← peek).kind = .symbol .rparen then return Scope.empty
  let scope ← param Scope.empty
  iterate (fun scope => do
    if ← accept (.symbol .comma) then return some (← param scope) else return none) scope

end Shc.Parser
