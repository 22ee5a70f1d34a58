/-
  Shc/Token/Cursor.lean
  =====================
  Moving through a source.  A cursor knows how many lines and how many characters of
  the current line are behind it, the rest of that line, and the lines to come.
  `next` skips the gap in front of the cursor (blanks, line ends and comments) and
  reads one token; `tokens` goes on until a terminal token.

  A gap is crossed line by line.  Within a line the only thing to remember is
  whether a block comment is open, and where it was opened: that is the `Gap`.
-/
import Shc.Source.Text
import Shc.Token.Lexeme

namespace Shc

/-- Where a gap between two tokens stands at some place: in plain space, or in a
    block comment that was opened at `start`. -/
inductive Gap where
  | space
  | comment (start : Location)
deriving DecidableEq, Repr

namespace Gap

/-- How the search for a token on one line ends. -/
inductive Stop where
  /-- A token starts with `c`, after `column` characters; `rest` is what follows `c`. -/
  | token (column : Nat) (c : Char) (rest : List Char)
  /-- The line ends first. -/
  | lineEnd (gap : Gap)
deriving DecidableEq, Repr

/-- Cross a gap within one line, from the place after `column` characters. -/
def cross (line : Nat) : Gap → Nat → List Char → Stop
  | gap, _, [] => .lineEnd gap
  | .space, _, '/' :: '/' :: _ => .lineEnd .space
  | .space, column, '/' :: '*' :: rest => cross line (.comment ⟨line, column + 1⟩) (column + 2) rest
  | .space, column, c :: rest =>
    if Text.isBlank c then cross line .space (column + 1) rest else .token column c rest
  | .comment _, column, '*' :: '/' :: rest => cross line .space (column + 2) rest
  | .comment start, column, _ :: rest => cross line (.comment start) (column + 1) rest

/-- A token found after `column'` characters starts there on the line. -/
theorem cross_token {line : Nat} {gap : Gap} {column : Nat} {cs : List Char}
    {column' : Nat} {c : Char} {rest : List Char}
    (h : cross line gap column cs = .token column' c rest) :
    column ≤ column' ∧ cs.drop (column' - column) = c :: rest := by
  fun_induction cross line gap column cs with
  | case1 => simp at h
  | case2 => simp at h
  | case3 column r ih =>
    obtain ⟨hle, hdrop⟩ := ih h
    refine ⟨by omega, ?_⟩
    rw [show column' - column = column' - (column + 2) + 2 by omega]
    simpa using hdrop
  | case4 column d r _ _ _ ih =>
    obtain ⟨hle, hdrop⟩ := ih h
    refine ⟨by omega, ?_⟩
    rw [show column' - column = column' - (column + 1) + 1 by omega]
    simpa using hdrop
  | case5 column d r _ _ _ =>
    simp only [Stop.token.injEq] at h
    obtain ⟨rfl, rfl, rfl⟩ := h
    simp
  | case6 start column r ih =>
    obtain ⟨hle, hdrop⟩ := ih h
    refine ⟨by omega, ?_⟩
    rw [show column' - column = column' - (column + 2) + 2 by omega]
    simpa using hdrop
  | case7 start column d r _ ih =>
    obtain ⟨hle, hdrop⟩ := ih h
    refine ⟨by omega, ?_⟩
    rw [show column' - column = column' - (column + 1) + 1 by omega]
    simpa using hdrop

/-- What follows a gap is no longer than the line from the gap on. -/
theorem cross_token_length_le {line : Nat} {gap : Gap} {column : Nat} {cs : List Char}
    {column' : Nat} {c : Char} {rest : List Char}
    (h : cross line gap column cs = .token column' c rest) : (c :: rest).length ≤ cs.length := by
  rw [← (cross_token h).2, List.length_drop]
  omega

end Gap

/-- A place in a source.  `line` lines have been begun, none of them before the first
    token is looked for; `column` characters of the last one are behind the cursor and
    `rest` is what follows them on that line. -/
structure Cursor where
  line : Nat
  column : Nat
  rest : List Char
  later : List (List Char)
  failure : Option ReadError
deriving DecidableEq, Repr

namespace Cursor

def start (source : Source) : Cursor :=
  ⟨0, 0, [], source.lines, source.failure⟩

/-- How much is still unread, each line end counting as one character. -/
def size (c : Cursor) : Nat :=
  c.rest.length + (c.later.map (·.length + 1)).foldr (· + ·) 0

/-- The place as tokens record it. -/
def loc (c : Cursor) : Location :=
  ⟨max c.line 1, c.column + 1⟩

/-- The terminal token of a source all of whose lines are behind the cursor, in a
    gap that is still open. -/
def terminal (c : Cursor) (gap : Gap) : Token :=
  match c.failure, gap with
  | some error, _ => ⟨.error (.unreadable error), .point ⟨c.line + 1, 1⟩⟩
  | none, .space => ⟨.eos, .point c.loc⟩
  | none, .comment start => ⟨.error .unterminatedComment, ⟨start, c.loc⟩⟩

def skip (c : Cursor) (width : Nat) : Cursor :=
  { c with column := c.column + width, rest := c.rest.drop width }

/-- Read the token at the cursor, which starts with `head`. -/
def take (c : Cursor) (head : Char) (tail : List Char) : Token × Cursor :=
  let read := Lexeme.read head tail
  let after := c.skip read.2
  (⟨read.1, ⟨c.loc, after.loc⟩⟩, after)

/-- The token after a gap that is open at the cursor, and the place behind it. -/
def nextIn (failure : Option ReadError) :
    (later : List (List Char)) → (line column : Nat) → (rest : List Char) → Gap → Token × Cursor
  | later, line, column, rest, gap =>
    match Gap.cross line gap column rest with
    | .token column head tail => take ⟨line, column, head :: tail, later, failure⟩ head tail
    | .lineEnd gap =>
      match later with
      | [] =>
        let c : Cursor := ⟨line, column + rest.length, [], [], failure⟩
        (c.terminal gap, c)
      | next :: later => nextIn failure later (line + 1) 0 next gap

def next (c : Cursor) : Token × Cursor :=
  nextIn c.failure c.later c.line c.column c.rest .space

theorem isTerminal_terminal (c : Cursor) (gap : Gap) : (c.terminal gap).isTerminal = true := by
  unfold terminal
  split <;> rfl

theorem size_take_lt {c : Cursor} {head : Char} {tail : List Char} (h : c.rest = head :: tail) :
    (c.take head tail).2.size < c.size := by
  have hpos := Lexeme.read_snd_pos head tail
  simp only [take, skip, size, h, List.length_drop, List.length_cons]
  omega

/-- A token that is not terminal takes something away from what is unread. -/
theorem size_nextIn_lt (failure : Option ReadError) (later : List (List Char))
    (line column : Nat) (rest : List Char) (gap : Gap)
    (h : (nextIn failure later line column rest gap).1.isTerminal = false) :
    (nextIn failure later line column rest gap).2.size <
      size ⟨line, column, rest, later, failure⟩ := by
  induction later generalizing line column rest gap with
  | nil =>
    unfold nextIn at h ⊢
    split
    · rename_i column' head tail hcross
      have hle := Gap.cross_token_length_le hcross
      refine Nat.lt_of_lt_of_le (size_take_lt rfl) ?_
      simpa [size] using hle
    · rename_i gap' hcross
      simp [hcross, isTerminal_terminal] at h
  | cons next later ih =>
    unfold nextIn at h ⊢
    split
    · rename_i column' head tail hcross
      have hle := Gap.cross_token_length_le hcross
      refine Nat.lt_of_lt_of_le (size_take_lt rfl) ?_
      simpa [size] using hle
    · rename_i gap' hcross
      simp only [hcross] at h
      refine Nat.lt_of_lt_of_le (ih _ _ _ _ h) ?_
      simp only [size, List.map_cons, List.foldr_cons]
      omega

/-- A token that is not terminal takes something away from what is unread. -/
theorem size_next_lt (c : Cursor) (h : c.next.1.isTerminal = false) : c.next.2.size < c.size :=
  size_nextIn_lt c.failure c.later c.line c.column c.rest .space h

/-- The tokens from the cursor on, through the first terminal one. -/
def tokens (c : Cursor) : List Token :=
  let read := c.next
  if read.1.isTerminal then [read.1] else read.1 :: read.2.tokens
termination_by c.size
decreasing_by
  rename_i h
  exact c.size_next_lt (by simpa using h)

end Cursor

/-- The tokens of a source, through the first terminal one. -/
def Source.tokens (source : Source) : List Token :=
  (Cursor.start source).tokens

end Shc
