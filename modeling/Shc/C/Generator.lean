/-
  Shc/C/Generator.lean
  ====================
  Programs in C: the includes, the globals, a prototype for each function, and the
  functions.  A generator holds the lines so far and the level of the next one.  It
  can be used on after a failure: the lines up to the failure stay, and a function
  that failed in its body leaves the level one higher, since it was never closed.
-/
import Shc.C.Emission

namespace Shc

namespace Function

/-- Whether a function is the entry point of a C program: `main` returning a plain
    `int`.  C fixes the types of its result and of its first two parameters. -/
def isEntryPoint (f : Function) : Bool :=
  f.name = "main" && f.returns = ⟨.int, 0⟩

/-- What stands before the parameters of a function. -/
def cHead (f : Function) : String :=
  if f.isEntryPoint then "int main" else f.returns.declarator f.name

def declarations : List Variable → Except C.Error (List String)
  | [] => return []
  | v :: vs => do
    let text ← v.declaration
    return text :: (← declarations vs)

def entryDeclarations : List Variable → Except C.Error (List String)
  | [] => return []
  | [count] => return ["int " ++ count.name]
  | count :: strings :: vs =>
    return ("int " ++ count.name) :: ("char **" ++ strings.name) :: (← declarations vs)

/-- The parameters of a function in C; an empty list is written `void`. -/
def cParams (f : Function) : Except C.Error String := do
  match f.params with
  | [] => return "void"
  | params =>
    return Text.joined ", "
      (← if f.isEntryPoint then entryDeclarations params else declarations params)

/-- What a function looks like from outside. -/
def signature (f : Function) : Except C.Error String := do
  return f.cHead ++ inParens (← f.cParams)

end Function

/-- The lines written so far and the level of the next one. -/
structure Generator where
  lines : List Line
  level : Nat
deriving DecidableEq, Repr

namespace Generator

def new : Generator :=
  ⟨[], 0⟩

def text (g : Generator) : String :=
  Line.renderAll g.lines

def write (g : Generator) (lines : List Line) : Generator :=
  { g with lines := g.lines ++ lines }

/-- The generator after an emission, and why that failed if it did. -/
def append (g : Generator) (e : Emission) : Option C.Error × Generator :=
  (e.failure, g.write e.lines)

def preamble (g : Generator) : Generator :=
  g.write
    [⟨g.level, "#include <stdio.h>"⟩, ⟨g.level, "#include <stdlib.h>"⟩,
      ⟨g.level, "#include <stdint.h>"⟩, .blank]

/-- One line for each text, and an empty line behind them if there are any. -/
def emitList (level : Nat) : List (Except C.Error String) → Emission
  | [] => ⟨[.blank], none⟩
  | text :: texts => (Emission.tryLine level text).andThen (emitList level texts)

def globals (g : Generator) : List Variable → Option C.Error × Generator
  | [] => (none, g)
  | vs => g.append (emitList g.level (vs.map fun v => do return (← v.declaration) ++ ";"))

def prototypes (g : Generator) : List Function → Option C.Error × Generator
  | [] => (none, g)
  | fs => g.append (emitList g.level (fs.map fun f => do return (← f.signature) ++ ";"))

def function (g : Generator) (f : Function) : Option C.Error × Generator :=
  match f.signature with
  | .error e => (some e, g)
  | .ok signature =>
    let body := Statement.emitAll (g.level + 1) f.body
    let opened := g.write (⟨g.level, signature ++ " \x7b"⟩ :: body.lines)
    match body.failure with
    | some e => (some e, { opened with level := g.level + 1 })
    | none => (none, opened.write [⟨g.level, "\x7d"⟩])

/-- Functions with an empty line in front of each. -/
def laterFunctions (g : Generator) : List Function → Option C.Error × Generator
  | [] => (none, g)
  | f :: fs =>
    match (g.write [.blank]).function f with
    | (some e, g) => (some e, g)
    | (none, g) => g.laterFunctions fs

/-- Functions with an empty line between neighbours. -/
def functions (g : Generator) : List Function → Option C.Error × Generator
  | [] => (none, g)
  | f :: fs =>
    match g.function f with
    | (some e, g) => (some e, g)
    | (none, g) => g.laterFunctions fs

def program (g : Generator) (p : Program) : Option C.Error × Generator :=
  match g.preamble.globals p.globals with
  | (some e, g) => (some e, g)
  | (none, g) =>
    match g.prototypes p.functions with
    | (some e, g) => (some e, g)
    | (none, g) => g.functions p.functions

end Generator

def Program.cText (p : Program) : Except C.Error String :=
  match Generator.new.program p with
  | (some e, _) => .error e
  | (none, g) => .ok g.text

end Shc
