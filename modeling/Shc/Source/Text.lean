/-
  Shc/Source/Text.lean
  ====================
  A source as the scanner meets it: its lines one after the other and, where the
  reading breaks off early, why.  Bytes are decoded line by line, so the lines
  before the first ill-formed one are still there.
-/
import Shc.Source.ReadError
import Shc.Text.Lines
import Shc.Text.Utf8

namespace Shc

/-- The lines of a source without their line ends, and what stopped the reading
    after them if it was not the end of the source. -/
structure Source where
  lines : List (List Char)
  failure : Option ReadError
deriving DecidableEq, Repr

namespace Source

def ofChars (cs : List Char) : Source :=
  ⟨Text.lines cs, none⟩

def ofString (s : String) : Source :=
  ofChars s.toList

/-- A source that cannot be read at all. -/
def unreadable (error : ReadError) : Source :=
  ⟨[], some error⟩

/-- Put one more line in front of a source. -/
def cons (line : List Char) (source : Source) : Source :=
  { source with lines := line :: source.lines }

/-- Decode lines up to the first one that is no UTF-8. -/
def ofByteLines : List (List UInt8) → Source
  | [] => ⟨[], none⟩
  | line :: later =>
    match Text.Utf8.decode line with
    | none => unreadable .notUtf8
    | some cs => cons cs (ofByteLines later)

def ofBytes (bytes : List UInt8) : Source :=
  ofByteLines (Text.byteLines bytes)

end Source

end Shc
