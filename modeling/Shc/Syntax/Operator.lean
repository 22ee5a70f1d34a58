/-
  Shc/Syntax/Operator.lean
  ========================
  The binary operators and the signs.  The binary operators form six layers; an
  operand of a layer is made of tighter layers only, and every layer groups to the
  left.
-/
import Shc.Token.Basic

namespace Shc

/-- The layers of binary operators. -/
inductive Layer where
  | disjunction | conjunction | equality | relation | sum | product
deriving DecidableEq, Repr

/-- The layers from the loosest to the tightest. -/
def Layer.all : List Layer :=
  [.disjunction, .conjunction, .equality, .relation, .sum, .product]

inductive Operator where
  | or | and | eq | ne | lt | le | gt | ge | add | sub | mul | div | mod
deriving DecidableEq, Repr

namespace Operator

/-- The layer that an operator belongs to. -/
def layer : Operator → Layer
  | or => .disjunction
  | and => .conjunction
  | eq | ne => .equality
  | lt | le | gt | ge => .relation
  | add | sub => .sum
  | mul | div | mod => .product

/-- How an operator is written, in the source language and in C alike. -/
def text : Operator → String
  | or => "||"
  | and => "&&"
  | eq => "=="
  | ne => "!="
  | lt => "<"
  | le => "<="
  | gt => ">"
  | ge => ">="
  | add => "+"
  | sub => "-"
  | mul => "*"
  | div => "/"
  | mod => "%"

/-- The operator that a symbol writes between two operands. -/
def ofSymbol? : Symbol → Option Operator
  | .orOr => some or
  | .andAnd => some and
  | .eqEq => some eq
  | .notEq => some ne
  | .lt => some lt
  | .le => some le
  | .gt => some gt
  | .ge => some ge
  | .plus => some add
  | .minus => some sub
  | .star => some mul
  | .slash => some div
  | .percent => some mod
  | _ => none

end Operator

/-- The signs in front of an operand. -/
inductive Sign where
  | plus | minus
deriving DecidableEq, Repr

namespace Sign

def text : Sign → String
  | plus => "+"
  | minus => "-"

/-- The sign that a symbol writes in front of an operand. -/
def ofSymbol? : Symbol → Option Sign
  | .plus => some plus
  | .minus => some minus
  | _ => none

end Sign

end Shc
