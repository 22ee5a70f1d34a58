/-
  Shc/Syntax/Program.lean
  =======================
  Whole programs: the items of a source, sorted into globals and functions.
-/
import Shc.Syntax.Tree

namespace Shc

/-- One thing at the top level of a source. -/
inductive Item where
  | global (v : Variable)
  | function (f : Function)

structure Program where
  globals : List Variable
  functions : List Function

namespace Program

def empty : Program :=
  ⟨[], []⟩

/-- The program with one more item in front. -/
def cons : Item → Program → Program
  | .global v, p => { p with globals := v :: p.globals }
  | .function f, p => { p with functions := f :: p.functions }

/-- The program that consists of the given items. -/
def ofItems : List Item → Program
  | [] => empty
  | item :: items => cons item (ofItems items)

end Program

end Shc
