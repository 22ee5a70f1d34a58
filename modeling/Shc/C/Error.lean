/-
  Shc/C/Error.lean
  ================
  What a program can say that C cannot: a variable without a size, more levels of
  address-of than one, and a value stored into an address.
-/
import Shc.Source.Location

namespace Shc.C

/-- Why a program has no C text. -/
inductive Error where
  | voidVariable (name : String) (loc : Location)
  | excessIndirection (name : String) (declared used : Nat) (loc : Location)
  | addressAssignment (name : String) (loc : Location)
deriving DecidableEq, Repr

namespace Error

/-- The declaration or the use that is at fault. -/
def loc : Error → Location
  | voidVariable _ loc | excessIndirection _ _ _ loc | addressAssignment _ loc => loc

def message : Error → String
  | voidVariable name _ => "variable '" ++ name ++ "' cannot have type void"
  | excessIndirection name declared used _ =>
    "'" ++ name ++ "' is declared with " ++ Text.decimal declared ++ " '^' and used with " ++
      Text.decimal used ++ "; at most one level of address-of is allowed"
  | addressAssignment name _ => "cannot assign to the address of '" ++ name ++ "'"

end Error

end Shc.C
