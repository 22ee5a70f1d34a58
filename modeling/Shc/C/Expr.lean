/-
  Shc/C/Expr.lean
  ===============
  Expressions in C.  Every binary operation stands in parentheses of its own, so
  the text means the same tree whatever the precedences of C.  A sign in front of a
  signed operand gets parentheses too, since `--` is another operator.

  The first thing that has no C text is reported: the right operand of an operator
  before the left one, and a value before the variable that it is stored into.
-/
import Shc.C.Indirection
import Shc.C.Literal
import Shc.Syntax.Tree

namespace Shc

/-- Whether the C text of an expression comes in parentheses anyway. -/
def Expr.isWrapped : Expr → Bool
  | .mk [.mk none value _] _ => value.isCompound
  | _ => false

def inParens (text : String) : String :=
  "(" ++ text ++ ")"

def cCall (callee : String) (args : List String) : String :=
  callee ++ inParens (Text.joined ", " args)

mutual

def Factor.cText : Factor → Except C.Error String
  | .const value _ => return Text.decimalInt value
  | .string value _ => return C.stringLiteral value
  | .paren inner _ => do
    let text ← inner.cText
    return if inner.isWrapped then text else inParens text
  | .var reference => reference.cText
  | .call callee args _ => do return cCall callee.name (← Expr.cTexts args)

def Unary.cText : Unary → Except C.Error String
  | .factor f => f.cText
  | .signed sign operand _ => do
    let text ← operand.cText
    match operand with
    | .factor _ => return sign.text ++ text
    | .signed .. => return sign.text ++ inParens text

def Value.cText : Value → Except C.Error String
  | .unary operand => operand.cText
  | .leaf operand _ => operand.cText
  | .binary op left right _ => do
    let rightText ← right.cText
    let leftText ← left.cText
    return inParens (leftText ++ " " ++ op.text ++ " " ++ rightText)

def Slot.cText : Slot → Except C.Error String
  | .mk none value _ => value.cText
  | .mk (some target) value _ => do
    let text ← value.cText
    return (← target.cTarget) ++ " = " ++ text

def Slot.cTexts : List Slot → Except C.Error (List String)
  | [] => return []
  | slot :: slots => do
    let text ← slot.cText
    return text :: (← Slot.cTexts slots)

def Expr.cText : Expr → Except C.Error String
  | .mk slots _ => do return Text.joined ", " (← Slot.cTexts slots)

def Expr.cTexts : List Expr → Except C.Error (List String)
  | [] => return []
  | expr :: exprs => do
    let text ← expr.cText
    return text :: (← Expr.cTexts exprs)

end

/-- A condition in C, in parentheses. -/
def Factor.cCondition (condition : Factor) : Except C.Error String :=
  match condition with
  | .paren .. => condition.cText
  | _ => do return inParens (← condition.cText)

end Shc
