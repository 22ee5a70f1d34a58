/-
  Shc/C/Indirection.lean
  ======================
  What the markers at a use mean.  A variable declared with depth `D` and used with
  `U` markers denotes a value of depth `U`.  It is reached by `D - U` dereferences,
  and for `U = D + 1` by taking the address of the variable.  There is no address
  of an address, so more markers have no meaning.
-/
import Shc.C.Error
import Shc.Syntax.Type

namespace Shc

inductive Indirection where
  | deref (count : Nat)
  | addressOf
deriving DecidableEq, Repr

namespace Indirection

/-- The rule: from the declared depth to the number of markers. -/
def ofDepths? (declared usage : Nat) : Option Indirection :=
  if usage ≤ declared then some (.deref (declared - usage))
  else if usage = declared + 1 then some .addressOf
  else none

/-- What stands in front of the name. -/
def text : Indirection → String
  | deref count => Text.row '*' count
  | addressOf => "&"

end Indirection

namespace Reference

/-- The rule, applied to a use of a variable. -/
def indirection (r : Reference) : Except C.Error Indirection :=
  match Indirection.ofDepths? r.declared r.usage with
  | some i => .ok i
  | none => .error (.excessIndirection r.name r.declared r.usage r.loc)

/-- A use of a variable that reads it. -/
def cText (r : Reference) : Except C.Error String := do
  return (← r.indirection).text ++ r.name

/-- A use of a variable that stores into it. -/
def cTarget (r : Reference) : Except C.Error String := do
  match ← r.indirection with
  | .deref count => return (Indirection.deref count).text ++ r.name
  | .addressOf => throw (.addressAssignment r.name r.loc)

end Reference

end Shc
