import Shc.Proofs.Lexing.Moved
import Shc.Proofs.Lexing.Token
import Shc.Proofs.Text.Lines

/-!
# The literal of a text in front of other text

A text is written as a string of the source language, and something follows.  The lexer
takes the literal for one token that means the text, and then reads what follows as if it
stood alone, further to the right on its first line.  Nothing within the literal can end it
or its line.
-/

namespace Shc

/-- The place behind `width` more characters on the first line. -/
def Location.right (width : Nat) (l : Location) : Location :=
  if l.line = 1 then ⟨1, l.column + width⟩ else l

theorem Cursor.moved_right (width : Nat) (rest : List Char) (later : List (List Char)) :
    Moved (Location.right width) ⟨1, 0, rest, later, none⟩ ⟨1, width, rest, later, none⟩ := by
  refine ⟨rfl, rfl, rfl, ⟨Nat.le_refl 1, Nat.le_refl 1⟩, ?_, ?_⟩
  · intro n
    rw [Location.right, if_pos rfl, Location.mk.injEq]
    dsimp only
    omega
  · intro k column
    rw [Location.right, if_neg (by dsimp only; omega)]

/-- The tokens of a text, from its first line on. -/
theorem Source.tokens_ofChars (cs : List Char) :
    (Source.ofChars cs).tokens =
      Cursor.tokens ⟨1, 0, (Text.lines cs).headD [], (Text.lines cs).tail, none⟩ := by
  rw [Source.tokens, Source.ofChars]
  cases Text.lines cs with
  | nil =>
    rw [Cursor.tokens_of_terminal rfl, Cursor.tokens_of_terminal rfl]
    rfl
  | cons line later => exact Cursor.tokens_lineEnd 0 0 later none line

/-- The literal of `v` in front of the text `r`: one token on the first line that means `v`
    and ends behind the closing mark, and then the tokens of `r` from there on. -/
theorem Source.tokens_stringLiteral (v r : String) :
    (Source.ofString (stringLiteral v ++ r)).tokens =
      ⟨.string v, ⟨⟨1, 1⟩, ⟨1, (stringLiteral v).length + 1⟩⟩⟩ ::
        relocate (Location.right (stringLiteral v).length) (Source.ofString r).tokens := by
  have hchars := toList_stringLiteral v
  have hlines := Text.linesBy_prepend (inLine_stringLiteral v) (by rw [hchars]; simp) r.toList
  have hlength : (escapedChars v.toList ++ ['\x22']).length + 1 = (stringLiteral v).length := by
    rw [← String.length_toList, hchars, List.length_cons]
  -- behind the literal the cursor is where that of `r` alone is, but for the column
  have hmoved := Cursor.moved_right (stringLiteral v).length ((Text.lines r.toList).headD [])
    (Text.lines r.toList).tail
  rw [← Text.lines, ← Text.lines] at hlines
  rw [Source.ofString, String.toList_append, tokens_ofChars, hlines, hchars, List.cons_append]
  dsimp only [List.headD_cons, List.tail_cons]
  rw [Cursor.tokens_token 1 0 _ none (startsToken_quote _) (Lexeme.read_stringLiteral v _) rfl,
    hlength, Source.ofString, tokens_ofChars, ← hmoved.tokens]
  simp

end Shc
