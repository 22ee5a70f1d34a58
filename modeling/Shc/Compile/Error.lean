/-
  Shc/Compile/Error.lean
  ======================
  Why a source did not compile: it is no program, it has no C text, or its printed
  form did not read back as the same program.
-/
import Shc.C.Error
import Shc.Diagnostic
import Shc.Parse.Error

namespace Shc

/-- Why a source did not compile. -/
inductive CompileError where
  | parse (e : ParseError)
  | c (e : C.Error)
  | roundTrip (expected actual : String)
deriving DecidableEq, Repr

namespace CompileError

def message : CompileError → String
  | parse e => e.message
  | c e => e.message
  | roundTrip .. =>
    "round trip check failed: the pretty-printed source parses to a different AST"

def loc? : CompileError → Option Location
  | parse e => some e.span.start
  | c e => some e.loc
  | roundTrip .. => none

/-- The error as a reader of the source sees it. -/
def render (source : String) (color : Bool) : CompileError → String
  | parse e => Diagnostic.render source e.kind.message e.span color
  | c e => Diagnostic.renderAt source e.message e.loc color
  | e@(roundTrip ..) => Diagnostic.header e.message color

end CompileError

end Shc
