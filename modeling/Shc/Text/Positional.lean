/-
  Shc/Text/Positional.lean
  ========================
  Numbers in positional notation, without padding and without a sign for the
  natural numbers.  `value` reads a row of decimal digits back.
-/

namespace Shc.Text

/-- The digits of `n` to `base`, the most significant first.  A base below two has
    no positional notation; the single digit stands for the whole number there. -/
def digits (base n : Nat) : List Char :=
  if base < 2 ∨ n < base then [Nat.digitChar n]
  else digits base (n / base) ++ [Nat.digitChar (n % base)]
termination_by n
decreasing_by
  exact Nat.div_lt_self (by omega) (by omega)

def decimal (n : Nat) : String :=
  String.ofList (digits 10 n)

/-- An integer in decimal notation, with `-` before a negative one. -/
def decimalInt : Int → String
  | .ofNat n => decimal n
  | .negSucc n => "-" ++ decimal (n + 1)

/-- A row of exactly `width` digits, the low ones of `n` to `base`. -/
def padded (base : Nat) : Nat → Nat → List Char
  | 0, _ => []
  | width + 1, n => padded base width (n / base) ++ [Nat.digitChar (n % base)]

/-- The number that a row of decimal digits stands for. -/
def value (cs : List Char) : Nat :=
  cs.foldl (fun n c => 10 * n + (c.toNat - '0'.toNat)) 0

end Shc.Text
