/-
  Shc/Log.lean
  ============
  What a run reports about its progress.  An event has a level and is shown only if
  the run is at least as talkative; `-v` and `-vv` raise that.
-/
import Shc.Syntax.Program

namespace Shc

namespace Log

/-- How important an event is, the most important first. -/
inductive Level where
  | warn | info | debug
deriving DecidableEq, Repr

namespace Level

/-- The level that so many `-v` ask for. -/
def ofVerbosity : Nat → Level
  | 0 => warn
  | 1 => info
  | _ => debug

def tag : Level → String
  | warn => "WARN"
  | info => "INFO"
  | debug => "DEBUG"

/-- Whether events of a level are shown at the level `threshold`. -/
def shownAt : Level → Level → Bool
  | warn, _ => true
  | info, threshold => threshold ≠ warn
  | debug, threshold => threshold = debug

end Level

end Log

/-- One step of a run. -/
inductive Event where
  | compiling (input : String)
  | global (v : Variable)
  | function (f : Function)
  | program (p : Program)
  | roundTripOk
  | roundTripMismatch (expected actual : String)
  | generated (f : Function)
  | wrote (output : String)

namespace Event

def level : Event → Log.Level
  | compiling _ | wrote _ => .info
  | roundTripMismatch .. => .warn
  | _ => .debug

/-- A named number in a message. -/
def count {α : Type} (name : String) (xs : List α) : String :=
  " " ++ name ++ "=" ++ Text.decimal xs.length

def message : Event → String
  | compiling input => "compiling input=" ++ input
  | global v => "parsed top-level declaration global=" ++ v.name ++ " ty=" ++ v.type.text
  | function f =>
    "parsed function function=" ++ f.name ++ count "params" f.params ++ count "locals" f.locals ++
      count "statements" f.body
  | program p => "parsed program" ++ count "functions" p.functions ++ count "globals" p.globals
  | roundTripOk => "round trip ok"
  | roundTripMismatch expected actual =>
    "round trip mismatch\n--- expected ---\n" ++ expected ++ "--- actual ---\n" ++ actual
  | generated f => "generated function function=" ++ f.name ++ count "statements" f.body
  | wrote output => "wrote C output output=" ++ output

/-- The line of an event; the level is right-aligned to five columns. -/
def line (e : Event) : String :=
  Text.row ' ' (5 - e.level.tag.length) ++ e.level.tag ++ " " ++ e.message ++ "\n"

/-- The lines of those events that are shown at a level. -/
def lines (threshold : Log.Level) (es : List Event) : String :=
  Text.concat ((es.filter (·.level.shownAt threshold)).map line)

end Event

end Shc
