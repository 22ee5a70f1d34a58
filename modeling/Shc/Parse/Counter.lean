/-
  Shc/Parse/Counter.lean
  ======================
  Parsers with one counter.  A session holds the tokens still to consume and how many
  constructs are open in it.  `nested` counts a construct while it is being parsed and
  refuses it if `maxNesting` of them are open.  A session is used on behind an error, so
  a construct that fails must be counted down as well.

  The counter is a whole number and `trail` has every value that it was given, the last
  one first: what is counted down too often shows as a number below zero.

  A construct that can contain others of its kind is parsed by `descend`.  The recursion
  is on the counter: it goes on only where more constructs are open than before, and what
  would go on forever ends in `runaway`.
-/
import Shc.Parse.Program

namespace Shc

/-- A parser in use: the tokens still to consume, the number of open constructs, and all
    the values that this number has had since the start. -/
structure Session where
  stream : Stream
  depth : Int
  trail : List Int
deriving DecidableEq, Repr

/-- Why a session stops: an error, or a construct within itself that is not counted. -/
inductive Halt where
  | error (e : ParseError)
  | runaway
deriving DecidableEq, Repr

namespace Session

/-- The session in front of some tokens, with no construct open. -/
def fresh (stream : Stream) : Session :=
  ⟨stream, 0, []⟩

def count (s : Session) (change : Int) : Session :=
  { s with depth := s.depth + change, trail := (s.depth + change) :: s.trail }

end Session

/-- A function that consumes tokens of a session and gives a value or the reason to stop. -/
abbrev Counted := EStateM Halt Session

namespace Counted

variable {α β : Type}

instance : Input Session Halt where
  tokens s := s.stream
  setTokens stream s := { s with stream }
  error := .error

/-- A construct, which is open as long as it is being parsed. -/
def nested (p : Counted α) : Counted α := fun s =>
  if maxNesting ≤ s.depth then Parser.tooDeep s
  else
    match p (s.count 1) with
    | .ok a s => .ok a (s.count (-1))
    | .error e s => .error e (s.count (-1))

/-- What `body` parses, where `body` parses the same within itself by its argument. -/
def descend (body : (α → Counted β) → α → Counted β) (a : α) : Counted β := fun s =>
  body (fun a s' =>
    if s.depth < s'.depth ∧ s'.depth ≤ maxNesting then descend body a s'
    else .error .runaway s') a s
termination_by s => (maxNesting - s.depth).toNat

end Counted

end Shc
