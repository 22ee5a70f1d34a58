/-
  Shc/Text/Style.lean
  ===================
  Colour for terminals.  A styled text is the text between two control sequences;
  the plain style adds nothing.  An empty text keeps its control sequences.
-/

namespace Shc

/-- How a piece of text is shown. -/
inductive Style where
  | plain | red | bold | redBold
deriving DecidableEq, Repr

namespace Style

/-- The control sequence with the given parameters. -/
def control (parameters : String) : String :=
  "\x1b[" ++ parameters ++ "m"

def apply : Style → String → String
  | plain, text => text
  | red, text => control "38;5;9" ++ text ++ control "39"
  | bold, text => control "1" ++ text ++ control "0"
  | redBold, text => control "38;5;9" ++ control "1" ++ text ++ control "0"

/-- The style itself where colour is wanted, and the plain style elsewhere. -/
def given (style : Style) (color : Bool) : Style :=
  if color then style else plain

end Style

end Shc
