/-
  Shc/Parse/Program.lean
  ======================
  Whole sources:

      program     ::= (function | declaration)*
      function    ::= "fun" name "(" params ")" ":" type "{" statement* "}"
      declaration ::= name ":" type ("=" expression)? ";"

  Items are read one after the other until the end of the source or the first
  error.  `Reading` keeps the items before an error, which is how progress can be
  reported; the program itself exists only if there was no error.
-/
import Shc.Parse.Statement
import Shc.Syntax.Program

namespace Shc

namespace Parser

section

variable {σ ε : Type} [Input σ ε]

def functionOf (statement : Scope → EStateM ε σ Body) : EStateM ε σ Function := do
  let loc := (← peek).loc
  expect (.keyword .funKw) "'fun'"
  let (name, _) ← name "function name"
  expect (.symbol .lparen) "'(' after function name"
  let scope ← params
  expect (.symbol .rparen) "')' after parameters"
  expect (.symbol .colon) "':' before return type"
  let returns ← type
  expect (.symbol .lbrace) "'\x7b' before function body"
  let (scope, body) ← statements statement scope
  expect (.symbol .rbrace) "'\x7d' after function body"
  return ⟨name, returns, scope.params, scope.locals, body, loc⟩

def globalOf (expr : EStateM ε σ Expr) : EStateM ε σ Variable := do
  let (name, span) ← name "variable name"
  declaration expr name span.start

/-- A function or a declaration.  No variable is known there. -/
def itemOf (top : Level σ ε) : EStateM ε σ Item := do
  match (← peek).kind with
  | .keyword .funKw => return .function (← functionOf top.statement)
  | .ident _ => return .global (← globalOf (top.expr Scope.empty))
  | _ => unexpected "'fun' or a declaration"

end

def function : Parser Function :=
  functionOf (statement maxNesting)

def global : Parser Variable :=
  globalOf (expr Scope.empty maxNesting)

def item : Parser Item :=
  itemOf ⟨(expr · maxNesting), statement maxNesting⟩

end Parser

/-- How far the reading of items came: those before the end or the error, the error
    if there was one, and the tokens left. -/
structure Reading where
  items : List Item
  error : Option ParseError
  rest : Stream

namespace Reading

/-- Read items up to the end of the source or the first error. -/
def ofStream (s : Stream) : Reading :=
  if s.current.kind = .eos then ⟨[], none, s⟩
  else
    match Parser.item s with
    | .error e s' => ⟨[], some e, s'⟩
    | .ok item s' =>
      if s'.size < s.size then
        let later := ofStream s'
        { later with items := item :: later.items }
      else ⟨[item], none, s'⟩
termination_by s.size

/-- Read the items of a source.  A source that starts with a lexical error has none. -/
def ofSource (source : Source) : Reading :=
  let s := Stream.ofSource source
  match Parser.checked s with
  | .error e s' => ⟨[], some e, s'⟩
  | .ok _ s' => ofStream s'

/-- The program that the items make, or the error. -/
def result (r : Reading) : Except ParseError Program :=
  match r.error with
  | some e => .error e
  | none => .ok (Program.ofItems r.items)

end Reading

/-- The rest of the source as a program. -/
def Parser.program : Parser Program := fun s =>
  let reading := Reading.ofStream s
  match reading.result with
  | .ok p => .ok p reading.rest
  | .error e => .error e reading.rest

def Program.parse (source : Source) : Except ParseError Program :=
  (Reading.ofSource source).result

end Shc
