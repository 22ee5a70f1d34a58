/-
  Shc/Token/Lexeme.lean
  =====================
  Reading one token from the characters at the front of a line.  No token runs over
  the end of its line, so `read` needs nothing but the first character and the rest
  of the line.  It answers with the kind and the number of characters taken, at
  least one and never more than there are.

  Of two symbols the longer one is taken, a number takes every digit and a name
  every character that can go on with it.
-/
import Shc.Text.Blank
import Shc.Text.Letter
import Shc.Text.Numeral
import Shc.Token.Basic

namespace Shc.Lexeme

open Token (Kind)

/-! ### Symbols -/

/-- The symbols of two characters. -/
def double? : Char → Char → Option Symbol
  | '=', '=' => some .eqEq
  | '!', '=' => some .notEq
  | '<', '=' => some .le
  | '>', '=' => some .ge
  | '&', '&' => some .andAnd
  | '|', '|' => some .orOr
  | _, _ => none

/-- The symbols of one character; `&` is another spelling of the marker `^`. -/
def single? : Char → Option Symbol
  | '+' => some .plus
  | '-' => some .minus
  | '*' => some .star
  | '/' => some .slash
  | '%' => some .percent
  | '=' => some .eq
  | '<' => some .lt
  | '>' => some .gt
  | '!' => some .bang
  | '^' => some .caret
  | '&' => some .caret
  | '(' => some .lparen
  | ')' => some .rparen
  | '[' => some .lbracket
  | ']' => some .rbracket
  | '\x7b' => some .lbrace
  | '\x7d' => some .rbrace
  | ',' => some .comma
  | ';' => some .semicolon
  | ':' => some .colon
  | _ => none

/-- The symbol at the front, if there is one, and its length. -/
def symbol? (c : Char) (rest : List Char) : Option (Symbol × Nat) :=
  match rest.head?.bind (double? c) with
  | some symbol => some (symbol, 2)
  | none => (single? c).map (·, 1)

/-! ### Characters and strings -/

/-- The character that a backslash and `c` stand for. -/
def unescape? : Char → Option Char
  | 'n' => some '\n'
  | 't' => some '\t'
  | 'r' => some '\r'
  | '\\' => some '\\'
  | '\x27' => some '\x27'
  | '\x22' => some '\x22'
  | '0' => some '\x00'
  | _ => none

/-- The rest of a string after `width` characters, which stand for `value`. -/
def string (value : String) (width : Nat) : List Char → Kind × Nat
  | [] => (.error .unterminatedString, width)
  | '\x22' :: _ => (.string value, width + 1)
  | ['\\'] => (.error .unterminatedString, width + 1)
  | '\\' :: c :: rest =>
    match unescape? c with
    | some d => string (value.push d) (width + 2) rest
    | none => (.error (.unknownEscape c), width + 2)
  | c :: rest => string (value.push c) (width + 1) rest

/-- The closing quote mark of a character, `width` characters after the opening one. -/
def closeChar (value : Char) (width : Nat) : List Char → Kind × Nat
  | '\x27' :: _ => (.char value, width + 1)
  | _ => (.error .unterminatedChar, width)

/-- The rest of a character after its opening quote mark. -/
def char : List Char → Kind × Nat
  | [] => (.error .unterminatedChar, 1)
  | '\x27' :: _ => (.error .emptyChar, 2)
  | ['\\'] => (.error .unterminatedChar, 2)
  | '\\' :: c :: rest =>
    match unescape? c with
    | some d => closeChar d 3 rest
    | none => (.error (.unknownEscape c), 3)
  | c :: rest => closeChar c 2 rest

/-! ### Numbers and names -/

/-- The largest number that can be written. -/
def maxInt : Nat := 2147483647

/-- What a row of digits is.  Only zero itself may start with a zero. -/
def numberKind (digits : List Char) : Kind :=
  if 1 < digits.length ∧ digits.head? = some '0' then
    .error (.leadingZero (String.ofList digits))
  else if Text.value digits ≤ maxInt then .int (Text.value digits)
  else .error (.integerOverflow (String.ofList digits))

def number (c : Char) (rest : List Char) : Kind × Nat :=
  let digits := c :: rest.takeWhile Char.isDigit
  (numberKind digits, digits.length)

/-- A character that can start a name. -/
def isNameStart (c : Char) : Bool :=
  c = '_' || Text.isLetter c

/-- A character that can go on with a name. -/
def isNamePart (c : Char) : Bool :=
  c = '_' || Text.isLetter c || Text.isNumeral c

/-- What a word is: a truth value, a reserved word or a name. -/
def wordKind (word : String) : Kind :=
  if word = "true" then .bool true
  else if word = "false" then .bool false
  else
    match Keyword.all.find? (·.text = word) with
    | some keyword => .keyword keyword
    | none => .ident word

def word (c : Char) (rest : List Char) : Kind × Nat :=
  let cs := c :: rest.takeWhile isNamePart
  (wordKind (String.ofList cs), cs.length)

/-! ### Any token -/

/-- The token at the front of a line: its kind and how many characters it takes. -/
def read (c : Char) (rest : List Char) : Kind × Nat :=
  match symbol? c rest with
  | some (symbol, width) => (.symbol symbol, width)
  | none =>
    if c = '\x22' then string "" 1 rest
    else if c = '\x27' then char rest
    else if c.isDigit then number c rest
    else if isNameStart c then word c rest
    else (.error (.unexpectedChar c), 1)

/-! ### How much is taken -/

theorem le_string_snd (value : String) (width : Nat) (cs : List Char) :
    width ≤ (string value width cs).2 := by
  fun_induction string value width cs <;> grind

theorem le_closeChar_snd (value : Char) (width : Nat) (cs : List Char) :
    width ≤ (closeChar value width cs).2 := by
  unfold closeChar
  split <;> simp

theorem char_snd_pos (cs : List Char) : 0 < (char cs).2 := by
  unfold char
  split
  · simp
  · simp
  · simp
  · split
    · exact Nat.lt_of_lt_of_le (by omega) (le_closeChar_snd ..)
    · simp
  · exact Nat.lt_of_lt_of_le (by omega) (le_closeChar_snd ..)

theorem symbol?_snd_pos {c : Char} {rest : List Char} {symbol : Symbol} {width : Nat}
    (h : symbol? c rest = some (symbol, width)) : 0 < width := by
  unfold symbol? at h
  split at h
  · simp only [Option.some.injEq, Prod.mk.injEq] at h
    omega
  · simp only [Option.map_eq_some_iff, Prod.mk.injEq] at h
    omega

/-- Every token takes at least one character. -/
theorem read_snd_pos (c : Char) (rest : List Char) : 0 < (read c rest).2 := by
  unfold read
  split
  · rename_i h
    exact symbol?_snd_pos h
  · split
    · exact le_string_snd ..
    · split
      · exact char_snd_pos rest
      · split
        · simp [number]
        · split
          · simp [word]
          · simp

end Shc.Lexeme
