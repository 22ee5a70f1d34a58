/-
  Shc/Token/Buffer.lean
  =====================
  Reading tokens from one line at a time.  A buffer holds the characters of a line and
  how many of them are behind the cursor; a line is taken up when the one before it has
  been read.

  Places on the line are numbers here, and a number can be wrong.  A scan checks every
  use of one and ends in a `Fault` where the cursor would leave its line, where there is
  no character to look at, where a piece of the line is cut out that is not within it,
  and where a loop would go on without having read anything.
-/
import Shc.Token.Lexer

namespace Shc

/-- A line with a place in it.  `line` lines have been begun, `chars` is the last one and
    `column` of its characters are behind the cursor.  `ended` tells whether it has been
    noticed that no line is to come. -/
structure Buffer where
  later : List (List Char)
  failure : Option ReadError
  chars : Array Char
  line : Nat
  column : Nat
  ended : Bool
deriving DecidableEq, Repr

namespace Buffer

def start (source : Source) : Buffer :=
  ⟨source.lines, source.failure, #[], 0, 0, false⟩

/-- How much is still unread, each line end counting as one character. -/
def unread (b : Buffer) : Nat :=
  (b.chars.size - b.column) + (b.later.map (·.length + 1)).foldr (· + ·) 0

/-- What is left to do: to read what is unread, and to notice the end. -/
def work (b : Buffer) : Nat :=
  b.unread + if b.ended then 0 else 1

/-- The place as tokens record it. -/
def loc (b : Buffer) : Location :=
  ⟨max b.line 1, b.column + 1⟩

def endLoc (b : Buffer) : Location :=
  ⟨max b.line 1, b.chars.size + 1⟩

end Buffer

/-- What a scan must not do. -/
inductive Scan.Fault where
  /-- The cursor leaves its line. -/
  | outside
  /-- The character at the cursor is asked for at the end of the line. -/
  | noChar
  /-- What is cut out of the line is not a piece of it. -/
  | badSlice
  /-- A loop goes on although its round has read nothing. -/
  | stuck
deriving DecidableEq, Repr

/-- Why a scan breaks off: its token is known early, or it has done what it must not do. -/
inductive Scan.Exit where
  | token (t : Token)
  | fault (f : Scan.Fault)
deriving DecidableEq, Repr

/-- A function that moves the cursor of a buffer and gives a value. -/
abbrev Scan := EStateM Scan.Exit Buffer

namespace Scan

open Token (Kind)
open Lexeme (double? single? unescape? numberKind wordKind isNameStart isNamePart)

variable {α β : Type}

/-! ### The cursor -/

/-- The character some places behind the cursor, if the line goes on so far. -/
def peek (ahead : Nat) : Scan (Option Char) := do
  let b ← get
  return b.chars[b.column + ahead]?

def cur : Scan Char := do
  match ← peek 0 with
  | some c => return c
  | none => throw (.fault .noChar)

/-- Put the cursor behind `column` characters of the line. -/
def moveTo (column : Nat) : Scan Unit := do
  let b ← get
  if column ≤ b.chars.size then set { b with column } else throw (.fault .outside)

def forward (width : Nat) : Scan Unit := do
  moveTo ((← get).column + width)

def toLineEnd : Scan Unit := do
  moveTo (← get).chars.size

/-- The piece of the line behind its first `start` characters and up to the cursor. -/
def slice (start : Nat) : Scan (List Char) := do
  let b ← get
  if start ≤ b.column ∧ b.column ≤ b.chars.size then
    return (b.chars.extract start b.column).toList
  else throw (.fault .badSlice)

/-- The piece of the line that `m` moves the cursor over. -/
def cut (m : Scan Unit) : Scan (List Char) := do
  let start := (← get).column
  m
  slice start

/-- Take up the next line.  The answer tells whether there is one; if reading has failed
    instead, there is a token for that. -/
def nextLine : Scan Bool := do
  let b ← get
  match b.later with
  | next :: later =>
    set { b with later, chars := next.toArray, line := b.line + 1, column := 0 }
    return true
  | [] =>
    set { b with ended := true }
    match b.failure with
    | none => return false
    | some error => throw (.token ⟨.error (.unreadable error), .point ⟨b.line + 1, 1⟩⟩)

/-- Repeat `step` from `b` until it gives a result. -/
def loop (step : β → Scan (β ⊕ α)) (b : β) : Scan α := fun s =>
  match step b s with
  | .error e s' => .error e s'
  | .ok (.inr a) s' => .ok a s'
  | .ok (.inl b') s' => if s'.work < s.work then loop step b' s' else .error (.fault .stuck) s'
termination_by s => s.work

/-- Move the cursor over the character in front of it, if there is one that satisfies `p`. -/
def skipRound (p : Char → Bool) : Scan (Unit ⊕ Unit) := do
  match ← peek 0 with
  | some c =>
    if p c then
      forward 1
      return .inl ()
    else return .inr ()
  | none => return .inr ()

/-- Move the cursor over all the characters in front of it that satisfy `p`. -/
def skipWhile (p : Char → Bool) : Scan Unit :=
  loop (fun _ => skipRound p) ()

/-! ### Gaps -/

/-- Skip a character or a line end of a block comment that was opened at `start`, or its
    closing mark. -/
def commentRound (start : Location) : Scan (Unit ⊕ Unit) := do
  let b ← get
  if b.chars.size ≤ b.column then
    if ← nextLine then return .inl ()
    else throw (.token ⟨.error .unterminatedComment, ⟨start, b.loc⟩⟩)
  else if (← cur) = '*' ∧ (← peek 1) = some '/' then
    forward 2
    return .inr ()
  else
    forward 1
    return .inl ()

/-- Skip the rest of a block comment that was opened at `start`. -/
def comment (start : Location) : Scan Unit :=
  loop (fun _ => commentRound start) ()

/-- Skip a blank or a comment at the cursor, where the character `c` is. -/
def gapAt (c : Char) : Scan (Unit ⊕ Unit) := do
  if Text.isBlank c then
    forward 1
    return .inl ()
  else
    let second ← peek 1
    if c = '/' ∧ second = some '/' then
      toLineEnd
      return .inl ()
    else if c = '/' ∧ second = some '*' then
      let start := (← get).loc
      forward 2
      comment start
      return .inl ()
    else return .inr ()

/-- Skip a blank, a line end or a comment. -/
def gapRound : Scan (Unit ⊕ Unit) := do
  let b ← get
  if b.ended then return .inr ()
  else if b.chars.size ≤ b.column then
    let _ ← nextLine
    return .inl ()
  else gapAt (← cur)

def gap : Scan Unit :=
  loop (fun _ => gapRound) ()

/-! ### Tokens -/

/-- One character of a string, or its closing quote mark; the characters so far stand for
    `value`. -/
def stringRound (value : String) : Scan (String ⊕ Kind) := do
  match ← peek 0 with
  | none => return .inr (.error .unterminatedString)
  | some c =>
    if c = '\x22' then
      forward 1
      return .inr (.string value)
    else if c = '\\' then
      match ← peek 1 with
      | none =>
        forward 1
        return .inr (.error .unterminatedString)
      | some d =>
        forward 2
        match unescape? d with
        | some e => return .inl (value.push e)
        | none => return .inr (.error (.unknownEscape d))
    else
      forward 1
      return .inl (value.push c)

/-- The rest of a string after its opening quote mark. -/
def string : Scan Kind :=
  loop stringRound ""

def closeChar (value : Char) : Scan Kind := do
  if (← peek 0) = some '\x27' then
    forward 1
    return .char value
  else return .error .unterminatedChar

/-- The rest of a character after its opening quote mark. -/
def char : Scan Kind := do
  match ← peek 0 with
  | none => return .error .unterminatedChar
  | some c =>
    if c = '\x27' then
      forward 1
      return .error .emptyChar
    else if c = '\\' then
      match ← peek 1 with
      | none =>
        forward 1
        return .error .unterminatedChar
      | some d =>
        forward 2
        match unescape? d with
        | some e => closeChar e
        | none => return .error (.unknownEscape d)
    else
      forward 1
      closeChar c

def number : Scan Kind := do
  return numberKind (← cut (skipWhile Char.isDigit))

def word : Scan Kind := do
  let cs ← cut do
    forward 1
    skipWhile isNamePart
  return wordKind (String.ofList cs)

/-- The token at the cursor, which starts with `c`. -/
def lexeme (c : Char) : Scan Kind := do
  match (← peek 1).bind (double? c) with
  | some symbol =>
    forward 2
    return .symbol symbol
  | none =>
    match single? c with
    | some symbol =>
      forward 1
      return .symbol symbol
    | none =>
      if c = '\x22' then
        forward 1
        string
      else if c = '\x27' then
        forward 1
        char
      else if c.isDigit then number
      else if isNameStart c then word
      else
        forward 1
        return .error (.unexpectedChar c)

/-- The token at the cursor, or the one behind the last line. -/
def here : Scan Token := do
  let b ← get
  if b.ended then return ⟨.eos, .point b.endLoc⟩
  else
    let kind ← lexeme (← cur)
    return ⟨kind, ⟨b.loc, (← get).loc⟩⟩

def token : Scan Token := do
  gap
  here

/-- What a scan has found, early or at its end, unless there was a fault. -/
def settle : EStateM.Result Exit Buffer Token → Except Fault (Token × Buffer)
  | .ok t b => .ok (t, b)
  | .error (.token t) b => .ok (t, b)
  | .error (.fault f) _ => .error f

end Scan

/-- The next token of a buffer, and the buffer behind it. -/
def Buffer.next (b : Buffer) : Except Scan.Fault (Token × Buffer) :=
  Scan.settle (Scan.token b)

/-- The token in front, and the buffer behind it. -/
structure BufferedLexer where
  current : Token
  buffer : Buffer
deriving DecidableEq, Repr

namespace BufferedLexer

/-- The lexer in front of the token that follows a place. -/
def ofBuffer (b : Buffer) : Except Scan.Fault BufferedLexer := do
  let (token, b) ← b.next
  return ⟨token, b⟩

/-- The lexer in front of the first token of a source. -/
def ofSource (source : Source) : Except Scan.Fault BufferedLexer :=
  ofBuffer (Buffer.start source)

/-- Consume the current token.  The answer is that token and the lexer after it. -/
def advance (l : BufferedLexer) : Except Scan.Fault (Token × BufferedLexer) :=
  if l.current.isTerminal then .ok (l.current, l)
  else (ofBuffer l.buffer).map (l.current, ·)

/-- What a call answers, and the lexer after it. -/
def call (l : BufferedLexer) : Lexer.Call → Except Scan.Fault (Token × BufferedLexer)
  | .current => .ok (l.current, l)
  | .advance => l.advance

/-- What calls answer one after the other, and the lexer after them. -/
def calls (l : BufferedLexer) :
    List Lexer.Call → Except Scan.Fault (List Token × BufferedLexer)
  | [] => .ok ([], l)
  | c :: cs => do
    let (token, l) ← l.call c
    let (tokens, l) ← l.calls cs
    return (token :: tokens, l)

end BufferedLexer

end Shc
