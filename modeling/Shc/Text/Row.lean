/-
  Shc/Text/Row.lean
  =================
  Texts put together from like parts: a row of one character, and a list of texts
  with a separator between neighbours.
-/

namespace Shc.Text

/-- The character `c` written `n` times. -/
def row (c : Char) (n : Nat) : String :=
  String.ofList (List.replicate n c)

def concat : List String → String
  | [] => ""
  | t :: ts => t ++ concat ts

/-- The texts one after the other, with `sep` between neighbours. -/
def joined (sep : String) : List String → String
  | [] => ""
  | [t] => t
  | t :: ts => t ++ sep ++ joined sep ts

end Shc.Text
