/-
  Shc/Text/Lines.lean
  ===================
  Cutting a text into lines.  A line feed ends a line, and one carriage return just
  before it belongs to the line end.  What follows the last line feed is a line only
  if it is not empty, and a carriage return at the very end of the text stays part
  of its line.  The rule is the same for characters and for bytes, so the two marks
  are parameters.
-/

namespace Shc.Text

variable {α : Type} [DecidableEq α]

/-- The lines of a text, without their line ends. -/
def linesBy (cr lf : α) : List α → List (List α)
  | [] => []
  | c :: rest =>
    if c = lf then [] :: linesBy cr lf rest
    else if c = cr ∧ rest.head? = some lf then linesBy cr lf rest
    else
      match linesBy cr lf rest with
      | [] => [[c]]
      | line :: later => (c :: line) :: later

def lines (cs : List Char) : List (List Char) :=
  linesBy '\r' '\n' cs

def byteLines (bytes : List UInt8) : List (List UInt8) :=
  linesBy 13 10 bytes

end Shc.Text
