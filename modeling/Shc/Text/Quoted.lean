/-
  Shc/Text/Quoted.lean
  ====================
  Text between quote marks as messages and outlines show it.  Every character that
  a reader could not tell apart is spelled out: the quote mark itself, the
  backslash, the usual control characters by a letter, and combining or unprinted
  characters by their code point in hexadecimal.
-/
import Shc.Text.Combining
import Shc.Text.Positional
import Shc.Text.Unprinted

namespace Shc.Text

/-- The spelling of one character between two quote marks `mark`. -/
def spelled (mark c : Char) : List Char :=
  if c = '\x00' then ['\\', '0']
  else if c = '\t' then ['\\', 't']
  else if c = '\r' then ['\\', 'r']
  else if c = '\n' then ['\\', 'n']
  else if c = '\\' then ['\\', '\\']
  else if c = mark then ['\\', mark]
  else if isCombining c || isUnprinted c then
    ['\\', 'u', '\x7b'] ++ digits 16 c.toNat ++ ['\x7d']
  else [c]

def quotedWith (mark : Char) (cs : List Char) : List Char :=
  mark :: (cs.flatMap (spelled mark) ++ [mark])

def quotedChar (c : Char) : String :=
  String.ofList (quotedWith '\x27' [c])

def quotedString (s : String) : String :=
  String.ofList (quotedWith '\x22' s.toList)

end Shc.Text
