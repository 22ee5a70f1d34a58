/-
  Shc/Print/Literal.lean
  ======================
  Writing a text as a string of the source language.  Only the characters that would
  end the string or break its line are escaped, each by one of the escapes that the
  language knows.
-/

namespace Shc

def escapedChar : Char → List Char
  | '\n' => ['\\', 'n']
  | '\t' => ['\\', 't']
  | '\r' => ['\\', 'r']
  | '\\' => ['\\', '\\']
  | '\x22' => ['\\', '\x22']
  | '\x00' => ['\\', '0']
  | c => [c]

def escapedChars (cs : List Char) : List Char :=
  cs.flatMap escapedChar

def escaped (s : String) : String :=
  String.ofList (escapedChars s.toList)

def stringLiteral (s : String) : String :=
  "\"" ++ escaped s ++ "\""

end Shc
