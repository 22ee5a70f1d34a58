/-
  Shc/Token/Lexer.lean
  ====================
  Reading a source one token at a time.  A lexer holds the token that has been read
  and not yet consumed, and the place behind it.  A terminal token stays: consuming
  it changes nothing.
-/
import Shc.Token.Cursor

namespace Shc

/-- The token in front, and the place behind it. -/
structure Lexer where
  current : Token
  cursor : Cursor
deriving DecidableEq, Repr

namespace Lexer

/-- The lexer in front of the token that follows a cursor. -/
def ofCursor (c : Cursor) : Lexer :=
  let read := c.next
  ⟨read.1, read.2⟩

def ofSource (source : Source) : Lexer :=
  ofCursor (Cursor.start source)

/-- Consume the current token.  The answer is that token and the lexer after it. -/
def advance (l : Lexer) : Token × Lexer :=
  (l.current, if l.current.isTerminal then l else ofCursor l.cursor)

/-- What a lexer can be asked for: its current token, or to consume it. -/
inductive Call where
  | current
  | advance
deriving DecidableEq, Repr

/-- What a call answers, and the lexer after it. -/
def call (l : Lexer) : Call → Token × Lexer
  | .current => (l.current, l)
  | .advance => l.advance

/-- What calls answer one after the other, and the lexer after them. -/
def calls (l : Lexer) : List Call → List Token × Lexer
  | [] => ([], l)
  | c :: cs =>
    let (token, l) := l.call c
    let (tokens, l) := l.calls cs
    (token :: tokens, l)

end Lexer

end Shc
