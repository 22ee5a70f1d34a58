import Shc.Proofs.C.Pieces
import Shc.Proofs.C.StringBody

/-!
# C texts on one line

The text of an expression, a declaration or a signature stands on one line, whatever
strings the source has: a line feed or a carriage return in a string is written as an
escape, and no other part of a text can hold one.
-/

namespace Shc

namespace Text

/-- A text without a line feed. -/
def OneLine (text : String) : Prop :=
  '\n' ∉ text.toList

instance (text : String) : Decidable (OneLine text) :=
  inferInstanceAs (Decidable (¬ _))

theorem oneLine_append {a b : String} : OneLine (a ++ b) ↔ OneLine a ∧ OneLine b := by
  rw [OneLine, String.toList_append, List.mem_append, not_or]
  rfl

theorem oneLine_row {c : Char} (hc : c ≠ '\n') (n : Nat) : OneLine (row c n) := by
  intro hmem
  rw [row, String.toList_ofList] at hmem
  exact hc (List.eq_of_mem_replicate hmem).symm

/-- A text without a line feed and without a carriage return. -/
def Unbroken (text : String) : Prop :=
  ∀ c ∈ text.toList, InLine c

theorem Unbroken.oneLine {text : String} (h : Unbroken text) : OneLine text :=
  fun hmem => (h _ hmem).1 rfl

theorem unbroken_append {a b : String} : Unbroken (a ++ b) ↔ Unbroken a ∧ Unbroken b := by
  rw [Unbroken, String.toList_append, List.forall_mem_append]
  rfl

end Text

open Text (Unbroken unbroken_append)

namespace C

theorem unbroken_stringLiteral (value : String) : Unbroken (stringLiteral value) := by
  have hescaped : Unbroken (escaped value) := by
    rw [Unbroken, escaped, String.toList_ofList]
    intro c hc
    have hcontrol := isControl_of_mem_escapedChars _ _ hc
    constructor
    · rintro rfl
      exact absurd hcontrol (by decide)
    · rintro rfl
      exact absurd hcontrol (by decide)
  have hquote : Unbroken "\"" := inLine_of_all (by decide)
  exact unbroken_append.2 ⟨unbroken_append.2 ⟨hquote, hescaped⟩, hquote⟩

theorem assembles_unbroken : Assembles Unbroken where
  ordinary := by
    intro text htext c hc
    have hclass := List.all_eq_true.1 htext c hc
    constructor
    · rintro rfl
      exact absurd hclass (by decide)
    · rintro rfl
      exact absurd hclass (by decide)
  string := unbroken_stringLiteral
  append ha hb := unbroken_append.2 ⟨ha, hb⟩
  inParens ha := unbroken_append.2
    ⟨unbroken_append.2 ⟨inLine_of_all (by decide), ha⟩, inLine_of_all (by decide)⟩

end C

end Shc
