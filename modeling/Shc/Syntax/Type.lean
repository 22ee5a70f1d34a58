/-
  Shc/Syntax/Type.lean
  ====================
  Types and variables.  A type is a base type and the number of levels of
  indirection on top of it, one for each marker `^` in front of the base type.
  A reference is a use of a variable: it carries the declaration that it resolved
  to and the number of markers written at the use.
-/
import Shc.Source.Location
import Shc.Text.Row

namespace Shc

inductive Base where
  | void | char | int
deriving DecidableEq, Repr

def Base.text : Base → String
  | .void => "void"
  | .char => "char"
  | .int => "int"

/-- A base type under `depth` levels of indirection. -/
structure Ty where
  base : Base
  depth : Nat
deriving DecidableEq, Repr

namespace Ty

/-- How a type is written: one marker for each level, then the base type. -/
def text (t : Ty) : String :=
  Text.row '^' t.depth ++ t.base.text

/-- Whether values of the type are addresses. -/
def isPointer (t : Ty) : Bool :=
  0 < t.depth

end Ty

/-- A declared parameter, local or global. -/
structure Variable where
  name : String
  type : Ty
  loc : Location
deriving DecidableEq, Repr

/-- A use of a variable with `usage` markers in front of its name. -/
structure Reference where
  decl : Variable
  usage : Nat
  loc : Location
deriving DecidableEq, Repr

namespace Reference

def name (r : Reference) : String :=
  r.decl.name

/-- The depth that the variable was declared with. -/
def declared (r : Reference) : Nat :=
  r.decl.type.depth

end Reference

end Shc
