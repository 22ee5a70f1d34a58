import Shc.Proofs.Lexing.Trailing
import Shc.Proofs.Relocate.Basic

/-!
# The same lines at another place

The lexer never looks back, so two cursors in front of the same characters find the same
tokens, wherever they stand.  `Cursor.Moved f c c'` says that `f` takes the place of each
character in front of `c` to its place in front of `c'`; the tokens of `c'` are then those of
`c`, moved by `f`.
-/

namespace Shc

instance : Relocate Gap where
  relocate f
    | .space => .space
    | .comment start => .comment (f start)

namespace Gap

/-- The search for a token ends at the same character, found from two places on. -/
inductive Stop.Moved (f : Location → Location) (column column' : Nat) : Stop → Stop → Prop where
  | token (n : Nat) (c : Char) (rest : List Char) :
      Moved f column column' (.token (column + n) c rest) (.token (column' + n) c rest)
  | lineEnd (gap : Gap) : Moved f column column' (.lineEnd gap) (.lineEnd (relocate f gap))

variable {f : Location → Location} {line line' column column' : Nat}

theorem Stop.Moved.of_add {m : Nat} {s s' : Stop} (h : Moved f (column + m) (column' + m) s s') :
    Moved f column column' s s' := by
  cases h with
  | token n c rest =>
    rw [Nat.add_assoc, Nat.add_assoc]
    exact .token (m + n) c rest
  | lineEnd gap => exact .lineEnd gap

theorem moved_cross (gap : Gap) (cs : List Char)
    (h : ∀ n, f ⟨line, column + n + 1⟩ = ⟨line', column' + n + 1⟩) :
    Stop.Moved f column column' (cross line gap column cs)
      (cross line' (relocate f gap) column' cs) := by
  -- the places further right on the line are moved in the same way, whatever was crossed
  have hmore : ∀ {column column' : Nat} (m : Nat),
      (∀ n, f ⟨line, column + n + 1⟩ = ⟨line', column' + n + 1⟩) →
      ∀ n, f ⟨line, column + m + n + 1⟩ = ⟨line', column' + m + n + 1⟩ := by
    intro column column' m h n
    rw [Nat.add_assoc column, Nat.add_assoc column']
    exact h (m + n)
  fun_induction cross line gap column cs generalizing column' with
  | case1 gap column =>
    cases gap with
    | space => exact .lineEnd .space
    | comment start => exact .lineEnd (.comment start)
  | case2 => exact .lineEnd .space
  | case3 column rest ih =>
    have hstart : f ⟨line, column + 1⟩ = ⟨line', column' + 1⟩ := h 0
    have hrest := ih (hmore 2 h)
    rw [show relocate f (Gap.comment ⟨line, column + 1⟩) = .comment ⟨line', column' + 1⟩ from
      congrArg Gap.comment hstart] at hrest
    exact hrest.of_add
  | case4 column c rest hline hblock hblank ih =>
    rw [show relocate f Gap.space = .space from rfl, cross, if_pos hblank]
    · exact (ih (hmore 1 h)).of_add
    · exact hline
    · exact hblock
  | case5 column c rest hline hblock hblank =>
    rw [show relocate f Gap.space = .space from rfl, cross, if_neg hblank]
    · exact .token 0 c rest
    · exact hline
    · exact hblock
  | case6 start column rest ih => exact (ih (hmore 2 h)).of_add
  | case7 start column c rest hopen ih =>
    rw [show relocate f (Gap.comment start) = .comment (f start) from rfl, cross]
    · exact (ih (hmore 1 h)).of_add
    · exact hopen

end Gap

namespace Cursor

/-- Two cursors in front of the same characters, whose places `f` takes from those in front
    of the first cursor to those in front of the second one. -/
structure Moved (f : Location → Location) (c c' : Cursor) : Prop where
  rest_eq : c'.rest = c.rest
  later_eq : c'.later = c.later
  failure_eq : c'.failure = c.failure
  line_pos : 1 ≤ c.line ∧ 1 ≤ c'.line
  onLine : ∀ n, f ⟨c.line, c.column + n + 1⟩ = ⟨c'.line, c'.column + n + 1⟩
  below : ∀ k column, f ⟨c.line + k + 1, column⟩ = ⟨c'.line + k + 1, column⟩

namespace Moved

variable {f : Location → Location} {c c' : Cursor}

theorem loc (h : Moved f c c') : c'.loc = f c.loc := by
  have honLine := h.onLine 0
  rw [Cursor.loc, Cursor.loc, Nat.max_eq_left h.line_pos.1, Nat.max_eq_left h.line_pos.2]
  exact honLine.symm

/-- Further on the line, in front of the same characters. -/
theorem onward (h : Moved f c c') (n : Nat) (rest : List Char) :
    Moved f { c with column := c.column + n, rest := rest }
      { c' with column := c'.column + n, rest := rest } := by
  refine ⟨rfl, h.later_eq, h.failure_eq, h.line_pos, ?_, h.below⟩
  intro m
  have honLine := h.onLine (n + m)
  rwa [← Nat.add_assoc c.column, ← Nat.add_assoc c'.column] at honLine

theorem take (h : Moved f c c') (head : Char) (tail : List Char) :
    (c'.take head tail).1 = relocate f (c.take head tail).1 ∧
      Moved f (c.take head tail).2 (c'.take head tail).2 := by
  have hskip : Moved f (c.skip (Lexeme.read head tail).2) (c'.skip (Lexeme.read head tail).2) := by
    rw [skip, skip, h.rest_eq]
    exact h.onward _ _
  have hspan : Span.mk c'.loc (c'.skip (Lexeme.read head tail).2).loc =
      relocate f (Span.mk c.loc (c.skip (Lexeme.read head tail).2).loc) := by
    rw [h.loc, hskip.loc]
    rfl
  exact ⟨congrArg (Token.mk _) hspan, hskip⟩

theorem terminal (h : Moved f c c') (gap : Gap) :
    c'.terminal (relocate f gap) = relocate f (c.terminal gap) := by
  have hbelow : Span.point ⟨c'.line + 1, 1⟩ = relocate f (Span.point ⟨c.line + 1, 1⟩) :=
    congrArg Span.point (h.below 0 1).symm
  unfold Cursor.terminal
  rw [h.failure_eq, h.loc, hbelow]
  cases c.failure with
  | some error => rfl
  | none => cases gap <;> rfl

/-- The cursors in front of the next line. -/
theorem nextLine {later : List (List Char)} {line column line' column' : Nat}
    {rest next : List Char} {failure : Option ReadError}
    (h : Moved f ⟨line, column, rest, next :: later, failure⟩
      ⟨line', column', rest, next :: later, failure⟩) :
    Moved f ⟨line + 1, 0, next, later, failure⟩ ⟨line' + 1, 0, next, later, failure⟩ := by
  refine ⟨rfl, rfl, rfl, ⟨Nat.le_add_left .., Nat.le_add_left ..⟩, fun n => h.below 0 _, ?_⟩
  intro k column
  have hbelow := h.below (k + 1) column
  rwa [← Nat.add_assoc, ← Nat.add_assoc, Nat.add_right_comm line,
    Nat.add_right_comm line'] at hbelow

theorem nextIn {later : List (List Char)} {line column line' column' : Nat} {rest : List Char}
    {failure : Option ReadError}
    (h : Moved f ⟨line, column, rest, later, failure⟩ ⟨line', column', rest, later, failure⟩)
    (gap : Gap) :
    (nextIn failure later line' column' rest (relocate f gap)).1 =
        relocate f (nextIn failure later line column rest gap).1 ∧
      Moved f (nextIn failure later line column rest gap).2
        (nextIn failure later line' column' rest (relocate f gap)).2 := by
  induction later generalizing line column line' column' rest gap with
  | nil =>
    rw [Cursor.nextIn, Cursor.nextIn]
    have hcross := Gap.moved_cross gap rest h.onLine
    generalize Gap.cross line gap column rest = stop at hcross
    generalize Gap.cross line' (relocate f gap) column' rest = stop' at hcross
    cases hcross with
    | token n head tail => exact (h.onward n (head :: tail)).take head tail
    | lineEnd gap' =>
      have hend := h.onward rest.length []
      exact ⟨hend.terminal gap', hend⟩
  | cons next later ih =>
    rw [Cursor.nextIn, Cursor.nextIn]
    have hcross := Gap.moved_cross gap rest h.onLine
    generalize Gap.cross line gap column rest = stop at hcross
    generalize Gap.cross line' (relocate f gap) column' rest = stop' at hcross
    cases hcross with
    | token n head tail => exact (h.onward n (head :: tail)).take head tail
    | lineEnd gap' => exact ih h.nextLine gap'

theorem next (h : Moved f c c') :
    c'.next.1 = relocate f c.next.1 ∧ Moved f c.next.2 c'.next.2 := by
  cases c with
  | mk line column rest later failure =>
    cases c' with
    | mk line' column' rest' later' failure' =>
      obtain rfl : rest' = rest := h.rest_eq
      obtain rfl : later' = later := h.later_eq
      obtain rfl : failure' = failure := h.failure_eq
      exact h.nextIn .space

/-- The tokens in front of the one cursor are those in front of the other one, moved. -/
theorem tokens (h : Moved f c c') : c'.tokens = relocate f c.tokens := by
  induction hsize : c.size using Nat.strongRecOn generalizing c c' with
  | _ n ih =>
    -- by what is unread: the first tokens agree, and behind them the cursors are still moved
    obtain ⟨hfirst, hbehind⟩ := h.next
    have hsame : c'.next.1.isTerminal = c.next.1.isTerminal := by
      rw [hfirst]
      rfl
    cases hterminal : c.next.1.isTerminal with
    | true =>
      rw [tokens_of_terminal (hsame.trans hterminal), tokens_of_terminal hterminal, hfirst]
      rfl
    | false =>
      have hlt := c.size_next_lt hterminal
      rw [tokens_of_proper (hsame.trans hterminal), tokens_of_proper hterminal, hfirst,
        ih _ (hsize ▸ hlt) hbehind rfl]
      rfl

end Moved

end Cursor

end Shc
