/-
  Shc/Syntax/Tree.lean
  ====================
  Syntax trees.  A factor is a constant, a string, a parenthesised expression, a use
  of a variable or a call.  A unary operand is a factor under any number of signs, a
  value combines unary operands by binary operators.  A slot is a value, stored into
  a variable where it has a target, and an expression is a row of slots.

  The operators of a value come in layers.  A value of a layer is a leaf, which is a
  value of the next tighter layer and nothing else, or an operator of the layer
  between a value of the same layer and one of the next tighter.  The tightest layer
  has unary operands for that.

  Source text only ever gives expressions of one slot without a target.  The other
  forms can be built by hand, and the printers and the C writer take them as well.
  Variables are known in their whole function, so a block in the source is no
  statement of its own: its statements stand in the list around it.

  A call holds a function, but what it calls is not looked up: the parser puts a
  placeholder there, of which only the name means anything.

  Every node records the place of its first token.  Where there is no field for it,
  the node has no place of its own and starts where its only child does.
-/
import Shc.Syntax.Operator
import Shc.Syntax.Type

namespace Shc

mutual

inductive Factor where
  | const (value : Int) (loc : Location)
  | string (value : String) (loc : Location)
  | paren (inner : Expr) (loc : Location)
  | var (reference : Reference)
  | call (callee : Function) (args : List Expr) (loc : Location)

inductive Unary where
  | factor (factor : Factor)
  | signed (sign : Sign) (operand : Unary) (loc : Location)

/-- Unary operands combined by binary operators, layer by layer. -/
inductive Value where
  | unary (operand : Unary)
  | leaf (operand : Value) (loc : Location)
  | binary (op : Operator) (left right : Value) (loc : Location)

/-- A value, stored into a variable if there is a target. -/
structure Slot where
  target : Option Reference
  value : Value
  loc : Location

/-- A row of slots. -/
structure Expr where
  slots : List Slot
  loc : Location

inductive Statement where
  /-- Run `yes` or `no` as the condition says. -/
  | branch (condition : Factor) (yes no : List Statement) (loc : Location)
  /-- Run `body` as long as the condition holds. -/
  | loop (condition : Factor) (body : List Statement) (loc : Location)
  | declare (v : Variable) (loc : Location)
  | call (callee : Function) (args : List Expr) (loc : Location)
  | ret (value : Option Expr) (loc : Location)
  | brk (loc : Location)
  | cont (loc : Location)
  | assign (slot : Slot) (loc : Location)

/-- A function: its parameters, and its locals in the order of their declarations. -/
structure Function where
  name : String
  returns : Ty
  params : List Variable
  locals : List Variable
  body : List Statement
  loc : Location

end

def Factor.loc : Factor → Location
  | const _ loc | string _ loc | paren _ loc | call _ _ loc => loc
  | var reference => reference.loc

def Unary.loc : Unary → Location
  | factor f => f.loc
  | signed _ _ loc => loc

namespace Value

def loc : Value → Location
  | unary operand => operand.loc
  | leaf _ loc | binary _ _ _ loc => loc

/-- The value as the left operand of an operator; the whole starts where it does. -/
def extend (left : Value) (op : Operator) (right : Value) : Value :=
  binary op left right left.loc

/-- The value as a unary operand, unless it has an operator on top. -/
def unary? : Value → Option Unary
  | unary operand => some operand
  | leaf operand _ => operand.unary?
  | binary .. => none

/-- Whether the value has an operator on top. -/
def isCompound : Value → Bool
  | unary _ => false
  | leaf operand _ => operand.isCompound
  | binary .. => true

end Value

/-- The expression that is one plain value. -/
def Expr.single (value : Value) : Expr :=
  ⟨[⟨none, value, value.loc⟩], value.loc⟩

def Statement.loc : Statement → Location
  | branch _ _ _ loc | loop _ _ loc | declare _ loc | call _ _ loc | ret _ loc | brk loc
  | cont loc | assign _ loc => loc

/-- What stands for the function of a call: only the name is known. -/
def Function.placeholder (name : String) (loc : Location) : Function :=
  ⟨name, ⟨.void, 0⟩, [], [], [], loc⟩

end Shc
