/-
  Shc/Diagnostic.lean
  ===================
  Errors as a reader of the source sees them:

      error: use of undeclared variable 'y'
       --> line 3, column 5
        |
      3 |     y = x + 1;
        |     ^

  The text in question is underlined.  If it goes on after its first line it is shown
  up to the end of that line, and `...` follows.  Places outside of the source are
  allowed: columns are cut to the line, and without such a line nothing is shown but
  the place.
-/
import Shc.Source.Text
import Shc.Text.Row
import Shc.Text.Style
import Shc.Token.Cursor

namespace Shc.Diagnostic

def header (message : String) (color : Bool) : String :=
  (Style.redBold.given color).apply "error:" ++ " " ++ (Style.bold.given color).apply message ++
    "\n"

/-- The line with a given number, counted from one; zero means the first line too. -/
def lineAt? (source : String) (line : Nat) : Option (List Char) :=
  (Text.lines source.toList)[line - 1]?

/-- The part of a line of the given length that a span covers, from its first column
    to just past its last one, both counted from zero. -/
def columns (span : Span) (length : Nat) : Nat × Nat :=
  let start := min (span.start.column - 1) length
  let stop :=
    if span.start.line < span.stop.line then length
    else max start (min (span.stop.column - 1) length)
  (start, stop)

/-- Blank space under a text; tabs stay, so that what follows lines up. -/
def underlay (cs : List Char) : List Char :=
  cs.map fun c => if c = '\t' then '\t' else ' '

/-- The line of the source with the span marked, and the underline. -/
def excerpt (line : List Char) (span : Span) (color : Bool) : String :=
  let (start, stop) := columns span line.length
  let before := line.take start
  let marked := (line.drop start).take (stop - start)
  let after := line.drop stop
  let number := Text.decimal span.start.line
  let gutter := Text.row ' ' number.length
  gutter ++ " |\n" ++
    (number ++ " | " ++ String.ofList before ++
      (Style.red.given color).apply (String.ofList marked) ++ String.ofList after ++ "\n") ++
    (gutter ++ " | " ++ String.ofList (underlay before) ++
      (Style.redBold.given color).apply (Text.row '^' (max (stop - start) 1)) ++ "\n") ++
    (if span.start.line < span.stop.line then gutter ++ " | ...\n" else "")

def render (source message : String) (span : Span) (color : Bool) : String :=
  header message color ++ " --> " ++ span.start.describe ++ "\n" ++
    match lineAt? source span.start.line with
    | some line => excerpt line span color
    | none => ""

/-- The span of the token that starts at a place, or the rest of the line from there. -/
def spanAt (source : String) (loc : Location) : Span :=
  match (Source.ofString source).tokens.find? (·.loc = loc) with
  | some t => t.span
  | none =>
    let length := ((lineAt? source loc.line).getD []).length
    ⟨loc, ⟨loc.line, max length loc.column + 1⟩⟩

/-- A message about the token that starts at a place. -/
def renderAt (source message : String) (loc : Location) (color : Bool) : String :=
  render source message (spanAt source loc) color

end Shc.Diagnostic
