/-
  Shc/C/Literal.lean
  ==================
  Writing a text as the body of a C string.  Control characters become escapes.  An
  octal escape takes up to three digits, so the short form of the zero character is
  used only where no digit follows.
-/
import Shc.Text.Positional

namespace Shc.C

def isControl (c : Char) : Bool :=
  c.toNat < 32 || c.toNat = 127

/-- The spelling of one character in front of `rest`. -/
def escapedChar (c : Char) (rest : List Char) : List Char :=
  if c = '\n' then ['\\', 'n']
  else if c = '\t' then ['\\', 't']
  else if c = '\r' then ['\\', 'r']
  else if c = '\\' then ['\\', '\\']
  else if c = '\x22' then ['\\', '\x22']
  else if c = '\x00' then
    if rest.head?.any Char.isDigit then ['\\', '0', '0', '0'] else ['\\', '0']
  else if isControl c then '\\' :: Text.padded 8 3 c.toNat
  else [c]

def escapedChars : List Char → List Char
  | [] => []
  | c :: rest => escapedChar c rest ++ escapedChars rest

def escaped (s : String) : String :=
  String.ofList (escapedChars s.toList)

def stringLiteral (s : String) : String :=
  "\"" ++ escaped s ++ "\""

end Shc.C
