/-
  Shc/C/Declarator.lean
  =====================
  Declarations in C.  Base types become types of fixed width and each level of
  indirection a `*` in front of the name.  Plain `void` has no values, so nothing
  can be declared with it.
-/
import Shc.C.Error
import Shc.Syntax.Type

namespace Shc

def Base.cText : Base → String
  | .void => "void"
  | .char => "uint8_t"
  | .int => "uint64_t"

def Ty.declarator (t : Ty) (name : String) : String :=
  t.base.cText ++ " " ++ Text.row '*' t.depth ++ name

def Ty.isVoid (t : Ty) : Bool :=
  t.base = .void && !t.isPointer

/-- The declaration of a variable, without the semicolon. -/
def Variable.declaration (v : Variable) : Except C.Error String :=
  if v.type.isVoid then .error (.voidVariable v.name v.loc)
  else .ok (v.type.declarator v.name)

end Shc
