/-
  Shc/Source/Location.lean
  ========================
  Places in a source text.  Lines and columns count from one, and a column counts
  characters, so a location says the same whatever the encoding of the file.
-/
import Shc.Text.Positional

namespace Shc

/-- A place in a source text: the line and the column, both from one. -/
structure Location where
  line : Nat
  column : Nat
deriving DecidableEq, Repr, Inhabited

def Location.describe (l : Location) : String :=
  "line " ++ Text.decimal l.line ++ ", column " ++ Text.decimal l.column

/-- A stretch of source text; `stop` is the place just past its last character. -/
structure Span where
  start : Location
  stop : Location
deriving DecidableEq, Repr, Inhabited

/-- The empty stretch at a location. -/
def Span.point (l : Location) : Span :=
  ⟨l, l⟩

end Shc
