/-
  Shc/Parse/Expr.lean
  ===================
  Expressions:

      expression ::= value
      value      ::= operands of the six layers, joined by their operators
      unary      ::= ("+" | "-") unary | "^"+ name | factor
      factor     ::= int | char | bool | string | "(" expression ")"
                   | name | name "(" arguments ")"
      arguments  ::= (expression ("," expression)*)?

  Names of variables are resolved in the scope of the function.  A run of markers
  belongs to the variable behind it, so it cannot stand before anything else.

  A sign, a parenthesis and an argument list are constructs, of which only so many
  may be open at once.  The grammar leaves it to an `Opening` how that is seen to.
  Parsers are handed down the number of constructs that may still be opened, their
  `room`: what is inside a construct is parsed with one less, and the recursion goes
  down with it.
-/
import Shc.Parse.Type
import Shc.Syntax.Tree

namespace Shc

/-- How a construct is opened: the parser of what is inside it can use parsers one level
    further in. -/
structure Opening (σ ε ι : Type) where
  enter {α : Type} (p : ι → EStateM ε σ α) : EStateM ε σ α

namespace Opening

variable {σ ε ι : Type}

/-- There is room, and `inner` parses what is inside. -/
def into (inner : ι) : Opening σ ε ι :=
  ⟨fun p => p inner⟩

/-- There is no room. -/
def shut [Input σ ε] : Opening σ ε ι :=
  ⟨fun _ => Parser.tooDeep⟩

end Opening

namespace Parser

section

variable {σ ε : Type} [Input σ ε]

/-- The use of a variable with `usage` markers, which starts at `loc`. -/
def resolve (scope : Scope) (name : String) (span : Span) (usage : Nat) (loc : Location) :
    EStateM ε σ Reference :=
  match scope.find? name with
  | some decl => return ⟨decl, usage, loc⟩
  | none => fail (.undeclaredVariable name) span

/-- A run of markers and the variable that they belong to. -/
def marked (scope : Scope) : EStateM ε σ Reference := do
  let loc := (← peek).loc
  let usage ← markers
  let t ← peek
  match t.kind with
  | .ident name =>
    let _ ← advance
    if (← peek).kind = .symbol .lparen then fail .markerWithoutVariable ⟨loc, t.span.stop⟩
    else resolve scope name t.span usage loc
  | _ => fail .markerWithoutVariable t.span

/-- The operator of a layer that a token writes. -/
def operator? (layer : Layer) : Token.Kind → Option Operator
  | .symbol s => (Operator.ofSymbol? s).filter (·.layer = layer)
  | _ => none

/-- One layer of binary operators over the operands below it, grouped to the left. -/
def chain (layer : Layer) (operand : EStateM ε σ Value) : EStateM ε σ Value := do
  let loc := (← peek).loc
  let first ← operand
  iterate (fun (left : Value) => do
    match operator? layer (← peek).kind with
    | none => return none
    | some op =>
      let _ ← advance
      return some (left.extend op (← operand))) (.leaf first loc)

/-- A value made of the given unary operands. -/
def valueOf (unary : EStateM ε σ Unary) : EStateM ε σ Value :=
  Layer.all.foldr chain (do return .unary (← unary))

def exprOf (unary : EStateM ε σ Unary) : EStateM ε σ Expr := do
  return .single (← valueOf unary)

/-- Arguments made of the given unary operands, through the closing parenthesis. -/
def argsOf (unary : EStateM ε σ Unary) : EStateM ε σ (List Expr) := do
  let args ←
    if (← peek).kind = .symbol .rparen then pure [] else commaList (exprOf unary)
  expect (.symbol .rparen) "')' after arguments"
  return args

/-- A factor; operands one level further in are parsed as `inner` says. -/
def factor (scope : Scope) (inner : Opening σ ε (EStateM ε σ Unary)) : EStateM ε σ Factor := do
  let t ← peek
  match t.kind with
  | .int value =>
    let _ ← advance
    return .const value t.loc
  | .bool b =>
    let _ ← advance
    return .const (if b then 1 else 0) t.loc
  | .string value =>
    let _ ← advance
    return .string value t.loc
  | .symbol .lparen =>
    inner.enter fun unary => do
      let _ ← advance
      let expr ← exprOf unary
      expect (.symbol .rparen) "')' after expression"
      return .paren expr t.loc
  | .ident name =>
    let _ ← advance
    if ← accept (.symbol .lparen) then
      return .call (.placeholder name t.loc) (← inner.enter argsOf) t.loc
    else
      return .var (← resolve scope name t.span 0 t.loc)
  | .char c =>
    let _ ← advance
    return .const c.toNat t.loc
  | _ => unexpected "expression"

/-- The sign that a token writes in front of an operand. -/
def sign? : Token.Kind → Option Sign
  | .symbol s => Sign.ofSymbol? s
  | _ => none

/-- A unary operand; operands one level further in are parsed as `inner` says. -/
def unaryWith (scope : Scope) (inner : Opening σ ε (EStateM ε σ Unary)) : EStateM ε σ Unary := do
  let t ← peek
  match sign? t.kind with
  | some sign =>
    inner.enter fun unary => do
      let _ ← advance
      return .signed sign (← unary) t.loc
  | none =>
    if t.kind = .symbol .caret then return .factor (.var (← marked scope))
    else return .factor (← factor scope inner)

end

/-! ### With room for `room` constructs -/

def unary (scope : Scope) : (room : Nat) → Parser Unary
  | 0 => unaryWith scope .shut
  | room + 1 => unaryWith scope (.into (unary scope room))

def expr (scope : Scope) (room : Nat) : Parser Expr :=
  exprOf (unary scope room)

/-- The operands inside a construct for which there has to be room. -/
def operands (scope : Scope) : (room : Nat) → Opening Stream ParseError (Parser Unary)
  | 0 => .shut
  | room + 1 => .into (unary scope room)

/-- The arguments of a call behind the opening parenthesis.  The argument list needs room
    itself. -/
def args (scope : Scope) (room : Nat) : Parser (List Expr) :=
  (operands scope room).enter argsOf

end Parser

end Shc
