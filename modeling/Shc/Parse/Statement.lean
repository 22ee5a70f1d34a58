/-
  Shc/Parse/Statement.lean
  ========================
  Statements:

      statement ::= "{" statement* "}" | ";"
                  | "if" "(" expression ")" body ("else" body)?
                  | "while" "(" expression ")" body
                  | "break" ";" | "continue" ";" | "return" expression? ";"
                  | name ":" type ("=" expression)? ";"
                  | name "(" arguments ")" ";"
                  | "^"* name "=" value ";"
      body      ::= "{" statement* "}" | statement

  A statement gives the statements that it stands for, none for the empty one and
  all of them for a block, and the scope after it.  An initial value is checked and
  then dropped; it is read before its variable is declared.

  A block, a branch and a loop are constructs as those of expressions are, and open
  at once with them.
-/
import Shc.Parse.Expr

namespace Shc.Parser

/-- The statements found so far and the scope after them. -/
abbrev Body := Scope × List Statement

/-- What is parsed inside a construct. -/
structure Level (σ ε : Type) where
  expr : Scope → EStateM ε σ Expr
  statement : Scope → EStateM ε σ Body

section

variable {σ ε : Type} [Input σ ε]

/-- Statements up to a closing brace or the end of the source. -/
def statements (statement : Scope → EStateM ε σ Body) (scope : Scope) : EStateM ε σ Body :=
  iterate (fun (scope, found) => do
    let kind := (← peek).kind
    if kind = .symbol .rbrace ∨ kind = .eos then return none
    let (scope, new) ← statement scope
    return some (scope, found ++ new)) (scope, [])

/-- The rest of a block behind its opening brace. -/
def block (statement : Scope → EStateM ε σ Body) (scope : Scope) : EStateM ε σ Body := do
  let body ← statements statement scope
  expect (.symbol .rbrace) "'\x7d' to close block"
  return body

/-- What a branch or a loop runs: a block or one statement. -/
def body (statement : Scope → EStateM ε σ Body) (scope : Scope) : EStateM ε σ Body := do
  if ← accept (.symbol .lbrace) then block statement scope else statement scope

/-- A condition behind the word `keyword`. -/
def condition (keyword : Keyword) (expr : EStateM ε σ Expr) : EStateM ε σ Factor := do
  let loc := (← peek).loc
  expect (.symbol .lparen) ("'(' after '" ++ keyword.text ++ "'")
  let expr ← expr
  expect (.symbol .rparen) "')' after condition"
  return .paren expr loc

def semicolon : EStateM ε σ Unit :=
  expect (.symbol .semicolon) "';'"

/-- A declaration behind its name. -/
def declaration (expr : EStateM ε σ Expr) (name : String) (loc : Location) :
    EStateM ε σ Variable := do
  expect (.symbol .colon) "':' after variable name"
  let type ← type
  if ← accept (.symbol .eq) then
    let _ ← expr
  let t ← peek
  if t.kind = .symbol .comma then fail .multipleDeclarations t.span
  semicolon
  return ⟨name, type, loc⟩

/-- An assignment behind its target; it starts at `loc`. -/
def assignment (value : EStateM ε σ Value) (target : Reference) (loc : Location) :
    EStateM ε σ Statement := do
  expect (.symbol .eq) "'=' in assignment"
  let value ← value
  semicolon
  return .assign ⟨some target, value, loc⟩ loc

/-- A statement that starts with a name: a declaration, a call or an assignment. -/
def named (scope : Scope) (unary : EStateM ε σ Unary) (args : EStateM ε σ (List Expr)) :
    EStateM ε σ Body := do
  let (name, span) ← name "identifier"
  match (← peek).kind with
  | .symbol .colon =>
    let v ← declaration (exprOf unary) name span.start
    match scope.declareLocal? v with
    | some scope => return (scope, [.declare v span.start])
    | none => fail (.duplicateDeclaration name) span
  | .symbol .lparen =>
    let _ ← advance
    let args ← args
    semicolon
    return (scope, [.call (.placeholder name span.start) args span.start])
  | .symbol .eq =>
    let target ← resolve scope name span 0 span.start
    return (scope, [← assignment (valueOf unary) target span.start])
  | _ => unexpected "':', '(' or '=' after identifier"

def branch (inner : Level σ ε) (scope : Scope) (loc : Location) : EStateM ε σ Body := do
  let condition ← condition .ifKw (inner.expr scope)
  let (scope, yes) ← body inner.statement scope
  if ← accept (.keyword .elseKw) then
    let (scope, no) ← body inner.statement scope
    return (scope, [.branch condition yes no loc])
  else
    return (scope, [.branch condition yes [] loc])

def loop (inner : Level σ ε) (scope : Scope) (loc : Location) : EStateM ε σ Body := do
  let condition ← condition .whileKw (inner.expr scope)
  let (scope, body) ← body inner.statement scope
  return (scope, [.loop condition body loc])

def ret (expr : EStateM ε σ Expr) (loc : Location) : EStateM ε σ Statement := do
  let value ← if (← peek).kind = .symbol .semicolon then pure none else some <$> expr
  semicolon
  return .ret value loc

/-- A statement that opens no construct of its own. -/
def flat (scope : Scope) (unary : EStateM ε σ Unary) (args : EStateM ε σ (List Expr)) :
    EStateM ε σ Body := do
  let t ← peek
  match t.kind with
  | .keyword .breakKw =>
    let _ ← advance
    semicolon
    return (scope, [.brk t.loc])
  | .keyword .continueKw =>
    let _ ← advance
    semicolon
    return (scope, [.cont t.loc])
  | .keyword .returnKw =>
    let _ ← advance
    return (scope, [← ret (exprOf unary) t.loc])
  | .symbol .semicolon =>
    let _ ← advance
    return (scope, [])
  | .symbol .caret =>
    let target ← marked scope
    return (scope, [← assignment (valueOf unary) target t.loc])
  | .ident _ => named scope unary args
  | _ => unexpected "statement"

/-- A statement.  One that opens no construct is parsed by `flat`, and what is inside a
    construct as `inner` says. -/
def statementWith (flat : Scope → EStateM ε σ Body) (inner : Opening σ ε (Level σ ε))
    (scope : Scope) : EStateM ε σ Body := do
  let t ← peek
  match t.kind with
  | .symbol .lbrace =>
    inner.enter fun level => do
      let _ ← advance
      block level.statement scope
  | .keyword .ifKw =>
    inner.enter fun level => do
      let _ ← advance
      branch level scope t.loc
  | .keyword .whileKw =>
    inner.enter fun level => do
      let _ ← advance
      loop level scope t.loc
  | _ => flat scope

end

/-! ### With room for `room` constructs -/

def flatAt (room : Nat) (scope : Scope) : Parser Body :=
  flat scope (unary scope room) (args scope room)

def statement : (room : Nat) → Scope → Parser Body
  | 0 => statementWith (flatAt 0) .shut
  | room + 1 => statementWith (flatAt (room + 1)) (.into ⟨(expr · room), statement room⟩)

end Shc.Parser
