/-
  Shc/Text/Ranges.lean
  ====================
  Sets of code points as lists of closed ranges in increasing order.  A search
  stops at the first range above the code point, so a character near the start of
  a table is decided after a step or two whatever the length of the table.
-/

namespace Shc.Text

/-- Closed ranges `(first, last)`, increasing and apart from each other. -/
abbrev Ranges := List (Nat × Nat)

def Ranges.contains : Ranges → Nat → Bool
  | [], _ => false
  | (first, last) :: rest, n =>
    if n < first then false else if n ≤ last then true else Ranges.contains rest n

end Shc.Text
