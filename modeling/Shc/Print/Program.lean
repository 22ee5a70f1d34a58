/-
  Shc/Print/Program.lean
  ======================
  Programs as source text, one statement a line, with four spaces for each level.

  Binary operators are written without parentheses of their own.  The layers group
  to the left and an operand on the right belongs to a tighter layer, so the text
  reads back as the same tree; parentheses stand only where the tree has them.
  Characters and truth values are constants in the tree and are written as numbers.
-/
import Shc.Print.Literal
import Shc.Syntax.Program
import Shc.Text.Line

namespace Shc

/-- A use of a variable: its markers and its name. -/
def Reference.text (r : Reference) : String :=
  Text.row '^' r.usage ++ r.name

/-- A variable with its type, as declarations and parameters give it. -/
def Variable.text (v : Variable) : String :=
  v.name ++ " : " ++ v.type.text

def callText (callee : String) (args : List String) : String :=
  callee ++ "(" ++ Text.joined ", " args ++ ")"

/-! ### Expressions -/

mutual

def Factor.text : Factor → String
  | .const value _ => Text.decimalInt value
  | .string value _ => stringLiteral value
  | .paren inner _ => "(" ++ inner.text ++ ")"
  | .var reference => reference.text
  | .call callee args _ => callText callee.name (Expr.texts args)

def Unary.text : Unary → String
  | .factor f => f.text
  | .signed sign operand _ => sign.text ++ operand.text

def Value.text : Value → String
  | .unary operand => operand.text
  | .leaf operand _ => operand.text
  | .binary op left right _ => left.text ++ " " ++ op.text ++ " " ++ right.text

def Slot.text : Slot → String
  | .mk (some target) value _ => target.text ++ " = " ++ value.text
  | .mk none value _ => value.text

def Slot.texts : List Slot → List String
  | [] => []
  | slot :: slots => slot.text :: Slot.texts slots

def Expr.text : Expr → String
  | .mk slots _ => Text.joined ", " (Slot.texts slots)

def Expr.texts : List Expr → List String
  | [] => []
  | expr :: exprs => expr.text :: Expr.texts exprs

end

/-- A condition as source text; parentheses are put around any other factor. -/
def Factor.conditionText (condition : Factor) : String :=
  match condition with
  | .paren .. => condition.text
  | _ => "(" ++ condition.text ++ ")"

/-! ### Statements -/

mutual

def Statement.lines (level : Nat) : Statement → List Line
  | .branch condition yes no _ =>
    ⟨level, "if " ++ condition.conditionText ++ " \x7b"⟩ :: Statement.allLines (level + 1) yes ++
      (match no with
        | [] => []
        | _ :: _ => ⟨level, "\x7d else \x7b"⟩ :: Statement.allLines (level + 1) no) ++
      [⟨level, "\x7d"⟩]
  | .loop condition body _ =>
    ⟨level, "while " ++ condition.conditionText ++ " \x7b"⟩ ::
      Statement.allLines (level + 1) body ++ [⟨level, "\x7d"⟩]
  | .declare v _ => [⟨level, v.text ++ ";"⟩]
  | .call callee args _ => [⟨level, callText callee.name (Expr.texts args) ++ ";"⟩]
  | .ret (some value) _ => [⟨level, "return " ++ value.text ++ ";"⟩]
  | .ret none _ => [⟨level, "return;"⟩]
  | .brk _ => [⟨level, "break;"⟩]
  | .cont _ => [⟨level, "continue;"⟩]
  | .assign slot _ => [⟨level, slot.text ++ ";"⟩]

def Statement.allLines (level : Nat) : List Statement → List Line
  | [] => []
  | statement :: statements =>
    Statement.lines level statement ++ Statement.allLines level statements

end

/-! ### Programs -/

namespace Function

/-- The first line of a function. -/
def headText (f : Function) : String :=
  "fun " ++ f.name ++ "(" ++ Text.joined ", " (f.params.map Variable.text) ++ ") : " ++
    f.returns.text ++ " \x7b"

def lines (f : Function) : List Line :=
  ⟨0, f.headText⟩ :: Statement.allLines 1 f.body ++ [⟨0, "\x7d"⟩]

def text (f : Function) : String :=
  Line.renderAll f.lines

end Function

/-- Functions as source text, with an empty line between neighbours. -/
def functionsText (functions : List Function) : String :=
  Text.joined "\n" (functions.map Function.text)

/-- A program as source text: the globals, an empty line, the functions. -/
def Program.text (p : Program) : String :=
  Text.concat (p.globals.map fun v => v.text ++ ";\n") ++
    (if p.globals.isEmpty ∨ p.functions.isEmpty then "" else "\n") ++
    functionsText p.functions

end Shc
