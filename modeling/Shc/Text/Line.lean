/-
  Shc/Text/Line.lean
  ==================
  Lines of generated text.  A line knows its level and is written with four spaces
  for each; the empty line of level zero is written as a line end alone.
-/
import Shc.Text.Row

namespace Shc

/-- A line of text at some level. -/
structure Line where
  level : Nat
  text : String
deriving DecidableEq, Repr

namespace Line

def blank : Line :=
  ⟨0, ""⟩

/-- The line with four spaces for each level, and its line end. -/
def render (l : Line) : String :=
  Text.row ' ' (4 * l.level) ++ l.text ++ "\n"

def renderAll (ls : List Line) : String :=
  Text.concat (ls.map render)

end Line

end Shc
