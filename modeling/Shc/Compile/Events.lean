/-
  Shc/Compile/Events.lean
  =======================
  What a compilation reports, in the order in which it does its work.  Whatever was
  done before a failure has been reported.
-/
import Shc.Compile.Source
import Shc.Log

namespace Shc

def Item.event : Item → Event
  | .global v => .global v
  | .function f => .function f

def Reading.events (r : Reading) : List Event :=
  r.items.map Item.event

namespace Program

def roundTripEvents (p : Program) : List Event :=
  (Reading.ofSource (Source.ofString p.text)).events ++
    [if p.outline = p.reread then .roundTripOk else .roundTripMismatch p.outline p.reread]

/-- The functions that are written before the first failure. -/
def written (p : Program) : List Function :=
  match Generator.new.globals p.globals, Generator.new.prototypes p.functions with
  | (none, _), (none, _) => p.functions.takeWhile fun f => (Generator.new.function f).1.isNone
  | _, _ => []

def compileEvents (p : Program) (options : Options) : List Event :=
  let check := if options.roundTrip then p.roundTripEvents else []
  let generate :=
    if options.roundTrip && p.outline ≠ p.reread then []
    else (p.selected options).written.map Event.generated
  .program p :: check ++ generate

end Program

def compileTextEvents (text : String) (options : Options) : List Event :=
  let reading := Reading.ofSource (Source.ofString text)
  reading.events ++
    match reading.result with
    | .ok p => p.compileEvents options
    | .error _ => []

end Shc
