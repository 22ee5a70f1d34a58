/-
  Shc/Scope.lean
  ==============
  The variables of one function.  Parameters and locals share one space of names and
  each list keeps the order of declaration.  An index from names to slots answers
  whether a name is taken and which variable it denotes.
-/
import Std.Data.TreeMap
import Shc.Syntax.Type

namespace Shc

/-- Where a variable stands in its scope. -/
inductive Scope.Slot where
  | param (index : Nat)
  | localVar (index : Nat)
deriving DecidableEq, Repr

/-- The parameters and locals declared so far, and where each name stands. -/
structure Scope where
  params : List Variable
  locals : List Variable
  names : Std.TreeMap String Scope.Slot

namespace Scope

def empty : Scope :=
  ⟨[], [], ∅⟩

/-- Declare a parameter, unless its name is taken. -/
def declareParam? (s : Scope) (v : Variable) : Option Scope :=
  if s.names.contains v.name then none
  else some
    { s with params := s.params ++ [v], names := s.names.insert v.name (.param s.params.length) }

/-- Declare a local, unless its name is taken. -/
def declareLocal? (s : Scope) (v : Variable) : Option Scope :=
  if s.names.contains v.name then none
  else some
    { s with locals := s.locals ++ [v], names := s.names.insert v.name (.localVar s.locals.length) }

def get? (s : Scope) : Slot → Option Variable
  | .param index => s.params[index]?
  | .localVar index => s.locals[index]?

/-- The variable that a name denotes. -/
def find? (s : Scope) (name : String) : Option Variable :=
  (s.names[name]?).bind s.get?

end Scope

end Shc
