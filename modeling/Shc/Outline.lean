/-
  Shc/Outline.lean
  ================
  The shape of a program as nested lists, without places in the source:

      (fun main (returns int)
        (params)
        (locals (x int))
        (body
          (decl x int)
          (assign (var x declared=0 usage=0) (+ (const 1) (const 2)))
          (return (var x declared=0 usage=0))))

  Two programs that source texts spell have the same outline exactly when they differ
  in nothing but places.
-/
import Shc.Syntax.Program
import Shc.Text.Quoted

namespace Shc

def Reference.outline (r : Reference) : String :=
  "(var " ++ r.name ++ " declared=" ++ Text.decimal r.declared ++ " usage=" ++
    Text.decimal r.usage ++ ")"

def Variable.outline (v : Variable) : String :=
  v.name ++ " " ++ v.type.text

def callOutline (callee : String) (args : List String) : String :=
  "(call " ++ callee ++ Text.concat (args.map (" " ++ ·)) ++ ")"

/-- The outline of a row of slots; a single slot stands for itself. -/
def slotsOutline : List String → String
  | [slot] => slot
  | slots => "(seq " ++ Text.joined " " slots ++ ")"

/-- The word for a sign. -/
def Sign.outline : Sign → String
  | .plus => "pos"
  | .minus => "neg"

/-! ### Expressions -/

mutual

def Factor.outline : Factor → String
  | .const value _ => "(const " ++ Text.decimalInt value ++ ")"
  | .string value _ => "(str " ++ Text.quotedString value ++ ")"
  | .paren inner _ => "(paren " ++ inner.outline ++ ")"
  | .var reference => reference.outline
  | .call callee args _ => callOutline callee.name (Expr.outlines args)

def Unary.outline : Unary → String
  | .factor f => f.outline
  | .signed sign operand _ => "(" ++ sign.outline ++ " " ++ operand.outline ++ ")"

def Value.outline : Value → String
  | .unary operand => operand.outline
  | .leaf operand _ => operand.outline
  | .binary op left right _ =>
    "(" ++ op.text ++ " " ++ left.outline ++ " " ++ right.outline ++ ")"

def Slot.outline : Slot → String
  | .mk (some target) value _ => "(assign " ++ target.outline ++ " " ++ value.outline ++ ")"
  | .mk none value _ => value.outline

def Slot.outlines : List Slot → List String
  | [] => []
  | slot :: slots => slot.outline :: Slot.outlines slots

def Expr.outline : Expr → String
  | .mk slots _ => slotsOutline (Slot.outlines slots)

def Expr.outlines : List Expr → List String
  | [] => []
  | expr :: exprs => expr.outline :: Expr.outlines exprs

end

/-! ### Statements -/

/-- A new line of an outline, with two spaces for each level. -/
def outlineLine (level : Nat) (text : String) : String :=
  "\n" ++ Text.row ' ' (2 * level) ++ text

mutual

/-- The outline of a statement, from the line end before it on. -/
def Statement.outline (level : Nat) : Statement → String
  | .branch condition yes no _ =>
    outlineLine level ("(if " ++ condition.outline) ++
      outlineLine (level + 1) "(then" ++ Statement.outlines (level + 2) yes ++ ")" ++
      outlineLine (level + 1) "(else" ++ Statement.outlines (level + 2) no ++ "))"
  | .loop condition body _ =>
    outlineLine level ("(while " ++ condition.outline) ++ Statement.outlines (level + 1) body ++ ")"
  | .declare v _ => outlineLine level ("(decl " ++ v.outline ++ ")")
  | .call callee args _ => outlineLine level (callOutline callee.name (Expr.outlines args))
  | .ret (some value) _ => outlineLine level ("(return " ++ value.outline ++ ")")
  | .ret none _ => outlineLine level "(return)"
  | .brk _ => outlineLine level "(break)"
  | .cont _ => outlineLine level "(continue)"
  | .assign slot _ => outlineLine level slot.outline

def Statement.outlines (level : Nat) : List Statement → String
  | [] => ""
  | statement :: statements =>
    Statement.outline level statement ++ Statement.outlines level statements

end

/-! ### Programs -/

def variablesOutline (heading : String) (vs : List Variable) : String :=
  "(" ++ heading ++ Text.concat (vs.map fun v => " (" ++ v.outline ++ ")") ++ ")"

def Function.outline (f : Function) : String :=
  "(fun " ++ f.name ++ " (returns " ++ f.returns.text ++ ")" ++
    outlineLine 1 (variablesOutline "params" f.params) ++
    outlineLine 1 (variablesOutline "locals" f.locals) ++
    outlineLine 1 "(body" ++ Statement.outlines 2 f.body ++ "))\n"

def functionsOutline (functions : List Function) : String :=
  Text.concat (functions.map Function.outline)

/-- The outline of a program: the globals, then the functions. -/
def Program.outline (p : Program) : String :=
  Text.concat (p.globals.map fun v => "(global " ++ v.outline ++ ")\n") ++
    functionsOutline p.functions

end Shc
