/-
  Shc/C/Writer.lean
  =================
  A generator in use.  Whatever is written goes to one generator, line after line and at
  the level of the moment, and a failure leaves the generator as it is then.  The level
  goes up by one in front of a body and down behind it.  The body of a branch or a loop
  takes its level back also when it fails, the body of a function only at its end.
-/
import Shc.C.Generator

namespace Shc

/-- Something that is written to a generator and may fail on the way. -/
abbrev Writer := EStateM C.Error Generator

namespace Writer

/-- What has been written when the end or a failure is reached, and the failure. -/
def outcome (w : Writer Unit) (g : Generator) : Option C.Error × Generator :=
  match w g with
  | .ok _ g => (none, g)
  | .error e g => (some e, g)

/-- Something that writing needs; it fails where there is none. -/
def need {α : Type} : Except C.Error α → Writer α
  | .ok a => pure a
  | .error e => throw e

/-- One line at the level of the moment. -/
def line (text : String) : Writer Unit :=
  modify fun g => g.write [⟨g.level, text⟩]

def blank : Writer Unit :=
  modify fun g => g.write [.blank]

def indent : Writer Unit :=
  modify fun g => { g with level := g.level + 1 }

def dedent : Writer Unit :=
  modify fun g => { g with level := g.level - 1 }

/-- Something one level up, and the level down again, behind a failure too. -/
def nested (w : Writer Unit) : Writer Unit := do
  indent
  try w catch e => do dedent; throw e
  dedent

/-- A line with a semicolon for each text, and an empty line behind them if there are any. -/
def list (texts : List (Except C.Error String)) : Writer Unit :=
  match texts with
  | [] => pure ()
  | texts => do
    texts.forM fun text => do line ((← need text) ++ ";")
    blank

end Writer

mutual

def Statement.write : Statement → Writer Unit
  | .branch condition yes no _ => do
    Writer.line ("if " ++ (← Writer.need condition.cCondition) ++ " \x7b")
    Writer.nested (Statement.writeAll yes)
    match no with
    | [] => pure ()
    | _ :: _ => do
      Writer.line "\x7d else \x7b"
      Writer.nested (Statement.writeAll no)
    Writer.line "\x7d"
  | .loop condition body _ => do
    Writer.line ("while " ++ (← Writer.need condition.cCondition) ++ " \x7b")
    Writer.nested (Statement.writeAll body)
    Writer.line "\x7d"
  | .declare v _ => do Writer.line ((← Writer.need v.declaration) ++ ";")
  | .call callee args _ => do
    Writer.line (cCall callee.name (← Writer.need (Expr.cTexts args)) ++ ";")
  | .ret (some value) _ => do Writer.line ("return " ++ (← Writer.need value.cText) ++ ";")
  | .ret none _ => Writer.line "return;"
  | .brk _ => Writer.line "break;"
  | .cont _ => Writer.line "continue;"
  | .assign slot _ => do Writer.line ((← Writer.need slot.cText) ++ ";")

def Statement.writeAll : List Statement → Writer Unit
  | [] => pure ()
  | statement :: statements => do
    statement.write
    Statement.writeAll statements

end

namespace Generator

/-- What a generator can be asked for. -/
inductive Call where
  | preamble
  | globals (vs : List Variable)
  | prototypes (fs : List Function)
  | function (f : Function)

def Call.write : Call → Writer Unit
  | preamble => do
    Writer.line "#include <stdio.h>"
    Writer.line "#include <stdlib.h>"
    Writer.line "#include <stdint.h>"
    Writer.blank
  | globals vs => Writer.list (vs.map Variable.declaration)
  | prototypes fs => Writer.list (fs.map Function.signature)
  | function f => do
    Writer.line ((← Writer.need f.signature) ++ " \x7b")
    Writer.indent
    Statement.writeAll f.body
    Writer.dedent
    Writer.line "\x7d"

/-- The generator after one call, and why the call failed if it did. -/
def call (g : Generator) (c : Call) : Option C.Error × Generator :=
  c.write.outcome g

/-- The generator after some calls, and how each of them ended. -/
def calls (g : Generator) : List Call → List (Call × Option C.Error) × Generator
  | [] => ([], g)
  | c :: cs =>
    let (failure, g) := g.call c
    let (log, g) := g.calls cs
    ((c, failure) :: log, g)

end Generator

end Shc
