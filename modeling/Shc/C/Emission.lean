/-
  Shc/C/Emission.lean
  ===================
  Statements as lines of C.  Writing stops at the first thing that has no C text;
  an emission is the lines before that and what stopped it, if anything did.
-/
import Shc.C.Declarator
import Shc.C.Expr
import Shc.Syntax.Program
import Shc.Text.Line

namespace Shc

/-- Lines that have been written, and why no more follow if something failed. -/
structure Emission where
  lines : List Line
  failure : Option C.Error
deriving DecidableEq, Repr

namespace Emission

def empty : Emission :=
  ⟨[], none⟩

def line (level : Nat) (text : String) : Emission :=
  ⟨[⟨level, text⟩], none⟩

/-- One line whose text may fail. -/
def tryLine (level : Nat) : Except C.Error String → Emission
  | .ok text => line level text
  | .error e => ⟨[], some e⟩

/-- One emission after the other; the second one only if the first did not fail. -/
def andThen (a b : Emission) : Emission :=
  match a.failure with
  | none => ⟨a.lines ++ b.lines, b.failure⟩
  | some _ => a

end Emission

mutual

def Statement.emit (level : Nat) : Statement → Emission
  | .branch condition yes no _ =>
    let head := do return "if " ++ (← condition.cCondition) ++ " \x7b"
    let otherwise :=
      match no with
      | [] => Emission.empty
      | _ :: _ => (Emission.line level "\x7d else \x7b").andThen (Statement.emitAll (level + 1) no)
    (((Emission.tryLine level head).andThen (Statement.emitAll (level + 1) yes)).andThen
      otherwise).andThen (Emission.line level "\x7d")
  | .loop condition body _ =>
    let head := do return "while " ++ (← condition.cCondition) ++ " \x7b"
    ((Emission.tryLine level head).andThen (Statement.emitAll (level + 1) body)).andThen
      (Emission.line level "\x7d")
  | .declare v _ => Emission.tryLine level do return (← v.declaration) ++ ";"
  | .call callee args _ =>
    Emission.tryLine level do return cCall callee.name (← Expr.cTexts args) ++ ";"
  | .ret (some value) _ => Emission.tryLine level do return "return " ++ (← value.cText) ++ ";"
  | .ret none _ => Emission.line level "return;"
  | .brk _ => Emission.line level "break;"
  | .cont _ => Emission.line level "continue;"
  | .assign slot _ => Emission.tryLine level do return (← slot.cText) ++ ";"

def Statement.emitAll (level : Nat) : List Statement → Emission
  | [] => Emission.empty
  | statement :: statements =>
    (Statement.emit level statement).andThen (Statement.emitAll level statements)

end

end Shc
