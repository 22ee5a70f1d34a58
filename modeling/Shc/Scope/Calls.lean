/-
  Shc/Scope/Calls.lean
  ====================
  A scope in use.  It is asked for one thing after the other: to declare a parameter or a
  local, which it does unless the name is taken, and to look a name up.
-/
import Shc.Scope

namespace Shc.Scope

inductive Call where
  | param (v : Variable)
  | localVar (v : Variable)
  | lookup (name : String)
deriving DecidableEq, Repr

/-- What a scope answers: whether the variable has been declared, or what a name denotes. -/
inductive Answer where
  | declared (accepted : Bool)
  | found (v : Option Variable)
deriving DecidableEq, Repr

/-- The scope after a declaration, which is refused if there is none. -/
def settle (s : Scope) (declared : Option Scope) : Answer × Scope :=
  (.declared declared.isSome, declared.getD s)

/-- The answer to one call, and the scope after it. -/
def call (s : Scope) : Call → Answer × Scope
  | .param v => s.settle (s.declareParam? v)
  | .localVar v => s.settle (s.declareLocal? v)
  | .lookup name => (.found (s.find? name), s)

/-- The scope after some calls, and what was answered to each of them. -/
def calls (s : Scope) : List Call → List (Call × Answer) × Scope
  | [] => ([], s)
  | c :: cs =>
    let (answer, s) := s.call c
    let (log, s) := s.calls cs
    ((c, answer) :: log, s)

/-- The parameters and the locals, each in the order of their declarations. -/
def parts (s : Scope) : List Variable × List Variable :=
  (s.params, s.locals)

end Shc.Scope
