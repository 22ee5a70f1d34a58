/-
  Shc/Token/Stream.lean
  =====================
  The tokens of a source that a parser has still to consume.  There is always a
  current one; the last token of a stream stays in front when it is consumed.
-/
import Shc.Token.Cursor

namespace Shc

/-- The token in front, those after it, and how many of these there are. -/
structure Stream where
  current : Token
  later : List Token
  size : Nat
  size_eq : size = later.length
deriving DecidableEq, Repr

namespace Stream

/-- The stream of a token and those after it. -/
def of (current : Token) (later : List Token) : Stream :=
  ⟨current, later, later.length, rfl⟩

def toList (s : Stream) : List Token :=
  s.current :: s.later

/-- The stream behind the current token. -/
def tail (s : Stream) : Stream :=
  match h : s.later with
  | [] => s
  | next :: later => ⟨next, later, s.size - 1, by simp [s.size_eq, h]⟩

def ofCursor (c : Cursor) : Stream :=
  let read := c.next
  of read.1 (if read.1.isTerminal then [] else read.2.tokens)

def ofSource (source : Source) : Stream :=
  ofCursor (Cursor.start source)

/-- A stream is known by its tokens. -/
theorem of_current_later (s : Stream) : of s.current s.later = s := by
  obtain ⟨current, later, size, rfl⟩ := s
  rfl

theorem tail_of_cons (t next : Token) (later : List Token) :
    (of t (next :: later)).tail = of next later :=
  rfl

theorem toList_ofCursor (c : Cursor) : (ofCursor c).toList = c.tokens := by
  rw [Cursor.tokens]
  simp only [ofCursor, of, toList]
  split <;> rfl

theorem toList_ofSource (source : Source) : (ofSource source).toList = source.tokens :=
  toList_ofCursor _

end Stream

end Shc
