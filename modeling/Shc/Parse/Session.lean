/-
  Shc/Parse/Session.lean
  ======================
  Sources parsed in a session.  The grammar is the one of all parsers, with the counter of
  the session in place of the room that is handed down in a `Parser`: every construct is
  `nested` here, and nothing else touches the counter.

  A session can be asked several times for the program that follows.  Each call goes on at
  the current token, also behind an error; what was parsed before the error is lost.
-/
import Shc.Parse.Counter
import Shc.Syntax.Equality

namespace Shc

namespace Counted

open Shc.Parser (Body Level)

/-- What is within a construct is parsed by `inner`. -/
def opening {ι : Type} (inner : ι) : Opening Session Halt ι :=
  ⟨fun p => nested (p inner)⟩

def unary (scope : Scope) : Counted Unary :=
  descend (fun self (_ : Unit) => Parser.unaryWith scope (opening (self ()))) ()

def expr (scope : Scope) : Counted Expr :=
  Parser.exprOf (unary scope)

def flat (scope : Scope) : Counted Body :=
  Parser.flat scope (unary scope) ((opening (unary scope)).enter Parser.argsOf)

def statement : Scope → Counted Body :=
  descend fun self => Parser.statementWith flat (opening ⟨expr, self⟩)

def items : Counted (List Item) :=
  Parser.iterate (fun found => do
    if (← Parser.peek).kind = .eos then return none
    return some (found ++ [← Parser.itemOf ⟨expr, statement⟩])) []

/-- The rest of the source as a program. -/
def program : Counted Program := do
  return .ofItems (← items)

end Counted

namespace Session

/-- What a session can be asked for: the program that follows, or its functions alone. -/
inductive Call where
  | program
  | functions
deriving DecidableEq, Repr

inductive Answer where
  | program (p : Program)
  | functions (fs : List Function)
deriving DecidableEq

/-- What a call makes of the program that was parsed. -/
def Call.answer : Call → Program → Answer
  | .program, p => .program p
  | .functions, p => .functions p.functions

/-- The session in front of some tokens, the first of which must be no lexical error. -/
def ofStream (s : Stream) : Except ParseError Session :=
  match Parser.checked s with
  | .error e _ => .error e
  | .ok _ s => .ok (fresh s)

def ofSource (source : Source) : Except ParseError Session :=
  ofStream (Stream.ofSource source)

/-- The answer to a call, and the session after it. -/
def call (s : Session) (c : Call) : Except Halt Answer × Session :=
  match Counted.program s with
  | .ok p s => (.ok (c.answer p), s)
  | .error e s => (.error e, s)

/-- The answers to calls one after the other, and the session after them. -/
def calls (s : Session) : List Call → List (Except Halt Answer) × Session
  | [] => ([], s)
  | c :: cs =>
    let (answer, s) := s.call c
    let (answers, s) := s.calls cs
    (answer :: answers, s)

end Session

end Shc
