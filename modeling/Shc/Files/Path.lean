/-
  Shc/Files/Path.lean
  ===================
  Paths as texts.  A path is a row of pieces with `/` between them.  An empty piece
  or `.` leads nowhere and `..` leads back; the name of a file is the last piece that
  leads somewhere.
-/
import Shc.Text.Row

namespace Shc

abbrev Path := String

namespace Path

/-- The most bytes that a path can have. -/
def maxBytes : Nat :=
  4095

/-- The most bytes that one name in a path can have. -/
def maxNameBytes : Nat :=
  255

/-- A name drawn at random: `.tmp` and six more characters.  This one stands for all that
    can be drawn, and no path spells it, because a path with a NUL is refused. -/
def drawnName : String :=
  ".tmp\x00\x00\x00\x00\x00\x00"

/-- Cut a text at every `/`. -/
def cut : List Char → List (List Char)
  | [] => [[]]
  | c :: rest =>
    if c = '/' then [] :: cut rest
    else
      match cut rest with
      | [] => [[c]]
      | piece :: pieces => (c :: piece) :: pieces

def pieces (p : Path) : List String :=
  (cut p.toList).map String.ofList

/-- Whether a piece leads nowhere. -/
def isIdle (piece : String) : Bool :=
  piece = "" || piece = "."

/-- Drop the pieces at the end that lead nowhere. -/
def trimmed (pieces : List String) : List String :=
  (pieces.reverse.dropWhile isIdle).reverse

/-- The pieces that lead somewhere. -/
def steps (p : Path) : List String :=
  p.pieces.filter (!isIdle ·)

def isAbsolute (p : Path) : Bool :=
  p.toList.head? = some '/'

/-- The name of the file that a path ends in, if it ends in one. -/
def fileName? (p : Path) : Option String :=
  (trimmed p.pieces).getLast?.filter (· ≠ "..")

/-- A file in a directory. -/
def join (dir : Path) (name : String) : Path :=
  if dir.isEmpty || dir.toList.getLast? = some '/' then dir ++ name else dir ++ "/" ++ name

/-- The directory that holds the file at the end of a path. -/
def directory (p : Path) : Path :=
  match p.pieces.dropLast with
  | [] => "."
  | first :: later =>
    match first, trimmed later with
    | "", [] => "/"
    | first, later => Text.joined "/" (first :: later)

end Path

/-- Where the C text of a file goes: next to it, or into a directory under its name. -/
def outputPath (input : Path) (outDir : Option Path) : Path :=
  match outDir with
  | some dir => dir.join (input.fileName?.getD "out" ++ ".c")
  | none => input ++ ".c"

end Shc
