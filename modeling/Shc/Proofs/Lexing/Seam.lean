import Shc.Proofs.Lexing.Cover
import Shc.Proofs.Lexing.Moved

/-!
# Texts one after the other

A line end behind a text closes its last line.  If the text has no lexical error, this
leaves its tokens as they are, also where a carriage return at the end of the text now
belongs to the line end.  What follows the line end starts a line of its own, and the
lexer has nothing to remember there but the number of lines behind it.  So the tokens of
two texts with a line end between them are those of the first one and then those of the
second one, further down.
-/

namespace Shc

/-! ### Lines -/

namespace Text

theorem lines_closed_ne_nil (cs : List Char) : lines (cs ++ ['\n']) ≠ [] := by
  induction cs with
  | nil => simp [lines, linesBy]
  | cons c cs ih =>
    rw [lines] at ih ⊢
    rw [List.cons_append, linesBy]
    split_ifs
    · simp
    · exact ih
    · split <;> simp

theorem head?_closed (cs ds : List Char) : (cs ++ '\n' :: ds).head? = (cs ++ ['\n']).head? := by
  cases cs <;> rfl

/-- The line end between two texts divides their lines. -/
theorem lines_seam (cs ds : List Char) :
    lines (cs ++ '\n' :: ds) = lines (cs ++ ['\n']) ++ lines ds := by
  induction cs with
  | nil => simp [lines, linesBy]
  | cons c cs ih =>
    have hne := lines_closed_ne_nil cs
    rw [lines, lines] at ih ⊢
    rw [lines] at hne
    rw [List.cons_append, List.cons_append, linesBy, linesBy, head?_closed cs ds, ih]
    split_ifs
    · rfl
    · rfl
    · cases hlines : linesBy '\r' '\n' (cs ++ ['\n']) with
      | nil => exact absurd hlines hne
      | cons line later => rfl

/-- As many lines as there are line ends. -/
theorem length_lines_closed (cs : List Char) :
    (lines (cs ++ ['\n'])).length = cs.count '\n' + 1 := by
  induction cs with
  | nil => rfl
  | cons c cs ih =>
    have hne := lines_closed_ne_nil cs
    rw [lines] at ih hne ⊢
    rw [List.cons_append, linesBy]
    by_cases hlf : c = '\n'
    · simp [hlf, ih]
    · rw [if_neg hlf, List.count_cons_of_ne hlf]
      split_ifs
      · exact ih
      · cases hlines : linesBy '\r' '\n' (cs ++ ['\n']) with
        | nil => exact absurd hlines hne
        | cons line later =>
          rw [hlines] at ih
          exact ih

/-- What a line end behind a text does to its lines. -/
inductive Closes : List (List Char) → List (List Char) → Prop where
  | same (lines : List (List Char)) : Closes lines lines
  | blank (lines : List (List Char)) : Closes lines (lines ++ [[]])
  | trailing {line line' : List Char} {later later' : List (List Char)} :
      Trailing line later line' later' → Closes (line :: later) (line' :: later')

theorem Closes.cons (line : List Char) {lines lines' : List (List Char)}
    (h : Closes lines lines') : Closes (line :: lines) (line :: lines') := by
  cases h with
  | same => exact .same _
  | blank => exact .blank (line :: lines)
  | trailing h => exact .trailing (.cons line h)

theorem Closes.cons_char (c : Char) {line : List Char} {later lines' : List (List Char)}
    (h : Closes (line :: later) lines') :
    ∃ line' later', lines' = line' :: later' ∧
      Closes ((c :: line) :: later) ((c :: line') :: later') := by
  cases h with
  | same => exact ⟨line, later, rfl, .same _⟩
  | blank =>
    refine ⟨line, later ++ [[]], rfl, ?_⟩
    exact .blank ((c :: line) :: later)
  | @trailing _ line' _ _ h =>
    cases h with
    | last => exact ⟨line', [], rfl, .trailing (.last (c :: line'))⟩
    | cons _ h => exact ⟨line, _, rfl, .trailing (.cons (c :: line) h)⟩

theorem closes_lines (cs : List Char) : Closes (lines cs) (lines (cs ++ ['\n'])) := by
  induction cs with
  | nil => exact .blank []
  | cons c cs ih =>
    rw [lines, lines] at ih ⊢
    rw [List.cons_append, linesBy, linesBy]
    by_cases hlf : c = '\n'
    · rw [if_pos hlf, if_pos hlf]
      exact ih.cons []
    · rw [if_neg hlf, if_neg hlf]
      cases cs with
      | nil =>
        by_cases hcr : c = '\r'
        · subst hcr
          exact .trailing (.last [])
        · rw [if_neg (fun h => hcr h.1), if_neg (fun h => hcr h.1)]
          exact .same _
      | cons d cs =>
        rw [List.cons_append, List.head?_cons, List.head?_cons]
        by_cases hcrlf : c = '\r' ∧ some d = some '\n'
        · rw [if_pos hcrlf, if_pos hcrlf]
          exact ih
        · rw [if_neg hcrlf, if_neg hcrlf]
          obtain ⟨line, -, later, -, hlines, -, -⟩ := exists_first_line (List.cons_ne_nil d cs)
          rw [lines] at hlines
          rw [hlines] at ih ⊢
          obtain ⟨line', later', hclosed, hcloses⟩ := ih.cons_char c
          rw [← List.cons_append, hclosed]
          exact hcloses

end Text

namespace Cursor

/-! ### More lines -/

/-- The place in a source with some more lines. -/
def extend (c : Cursor) (lines : List (List Char)) : Cursor :=
  { c with later := c.later ++ lines }

/-- The search for a token finds one, which is then found whatever lines follow, or comes
    to the end of the last line, from where it goes on if more lines follow. -/
theorem nextIn_extend (failure : Option ReadError) (later : List (List Char)) (line column : Nat)
    (rest : List Char) (gap : Gap) :
    (∃ (c : Cursor) (head : Char) (tail : List Char),
      c.failure = failure ∧ c.line + c.later.length = line + later.length ∧
        ∀ lines, nextIn failure (later ++ lines) line column rest gap =
          (c.extend lines).take head tail) ∨
    ∃ (c : Cursor) (gap' : Gap), c.failure = failure ∧
      nextIn failure later line column rest gap = (c.terminal gap', c) ∧
      ∀ next lines, nextIn failure (later ++ next :: lines) line column rest gap =
        nextIn failure lines (line + later.length + 1) 0 next gap' := by
  induction later generalizing line column rest gap with
  | nil =>
    cases hcross : Gap.cross line gap column rest with
    | token column' head tail =>
      refine .inl ⟨⟨line, column', head :: tail, [], failure⟩, head, tail, rfl, rfl, ?_⟩
      intro lines
      rw [List.nil_append, nextIn, hcross]
      rfl
    | lineEnd gap' =>
      refine .inr ⟨⟨line, column + rest.length, [], [], failure⟩, gap', rfl, ?_, ?_⟩
      · rw [nextIn, hcross]
      · intro next lines
        rw [List.nil_append, nextIn, hcross]
        rfl
  | cons line' later ih =>
    cases hcross : Gap.cross line gap column rest with
    | token column' head tail =>
      refine .inl ⟨⟨line, column', head :: tail, line' :: later, failure⟩, head, tail, rfl, rfl, ?_⟩
      intro lines
      rw [List.cons_append, nextIn, hcross]
      rfl
    | lineEnd gap' =>
      have hstep : ∀ lines, nextIn failure (line' :: later ++ lines) line column rest gap =
          nextIn failure (later ++ lines) (line + 1) 0 line' gap' := by
        intro lines
        rw [List.cons_append, nextIn, hcross]
      have hcount : line + 1 + later.length = line + (line' :: later).length := by
        rw [List.length_cons]
        omega
      rcases ih (line + 1) 0 line' gap' with
        ⟨c, head, tail, hfailure, hlines, hfound⟩ | ⟨c, gap'', hfailure, hend, hmore⟩
      · refine .inl ⟨c, head, tail, hfailure, hlines.trans hcount, ?_⟩
        intro lines
        rw [hstep, hfound]
      · refine .inr ⟨c, gap'', hfailure, ?_, ?_⟩
        · have hself := hstep []
          rw [List.append_nil, List.append_nil] at hself
          rw [hself, hend]
        · intro next lines
          rw [hstep, hmore, hcount]

theorem tokens_extend {c : Cursor} (hfailure : c.failure = none) {ts : List Token} {span : Span}
    (h : c.tokens = ts ++ [⟨.eos, span⟩]) (next : List Char) (lines : List (List Char)) :
    (c.extend (next :: lines)).tokens =
      ts ++ tokens ⟨c.line + c.later.length + 1, 0, next, lines, none⟩ := by
  induction ts generalizing c with
  | nil =>
    have heos := eos_of_tokens h
    have hself := nextIn_extend c.failure c.later c.line c.column c.rest .space
    rcases hself with ⟨c', head, tail, -, -, hfound⟩ | ⟨c', gap, hfailure', hend, hmore⟩
    · have hnext := hfound []
      rw [List.append_nil] at hnext
      rw [Cursor.next, hnext] at heos
      exact absurd heos (take_fst_ne_eos _ head tail)
    · rw [Cursor.next, hend] at heos
      have hgap : gap = .space := by
        cases gap with
        | space => rfl
        | comment start =>
          rw [hfailure] at hfailure'
          simp [terminal, hfailure'] at heos
      subst hgap
      apply tokens_eq_of_next_eq
      rw [extend, Cursor.next, hmore, hfailure]
      rfl
  | cons t ts ih =>
    obtain ⟨hfirst, hproper, hrest⟩ := step_of_tokens h
    have hself := nextIn_extend c.failure c.later c.line c.column c.rest .space
    rcases hself with ⟨c', head, tail, hfailure', hlines, hfound⟩ | ⟨c', gap, -, hend, -⟩
    · have hnext := hfound []
      rw [List.append_nil] at hnext
      have hnow : c.next = c'.take head tail := by
        rw [Cursor.next, hnext]
        simp [extend]
      have hmore : (c.extend (next :: lines)).next = (c'.extend (next :: lines)).take head tail :=
        hfound (next :: lines)
      have hsame : (c.extend (next :: lines)).next.1 = t := by
        rw [hmore, ← hfirst, hnow]
        rfl
      have hbehind : (c.extend (next :: lines)).next.2 = c.next.2.extend (next :: lines) := by
        rw [hmore, hnow]
        rfl
      have hplace : c.next.2.line + c.next.2.later.length = c.line + c.later.length := by
        rw [hnow]
        exact hlines
      have hnone : c.next.2.failure = none := by
        rw [hnow]
        exact hfailure'.trans hfailure
      rw [tokens_of_proper (by rw [hsame, hproper]), hsame, hbehind, ih hnone hrest, hplace]
      rfl
    · rw [Cursor.next, hend] at hfirst
      rw [← hfirst, isTerminal_terminal] at hproper
      cases hproper

end Cursor

/-! ### Further down -/

/-- The place `k` lines further down. -/
def Location.down (k : Nat) (l : Location) : Location :=
  ⟨l.line + k, l.column⟩

/-- The same characters `k` lines further down. -/
theorem Cursor.moved_down {c : Cursor} (h : 1 ≤ c.line) (k : Nat) :
    Moved (Location.down k) c { c with line := c.line + k } := by
  refine ⟨rfl, rfl, rfl, ⟨h, by dsimp only; omega⟩, fun _ => rfl, fun m column => ?_⟩
  simp only [Location.down, Location.mk.injEq, and_true]
  omega

/-! ### Two texts -/

theorem Source.tokens_closed {cs : List Char} {ts : List Token} {span : Span}
    (h : (Source.ofChars cs).tokens = ts ++ [⟨.eos, span⟩]) :
    ∃ span', (Source.ofChars (cs ++ ['\n'])).tokens = ts ++ [⟨.eos, span'⟩] := by
  rw [Source.tokens, Source.ofChars] at h ⊢
  have hcloses := Text.closes_lines cs
  generalize Text.lines cs = lines at h hcloses
  generalize Text.lines (cs ++ ['\n']) = lines' at hcloses ⊢
  cases hcloses with
  | same => exact ⟨span, h⟩
  | blank =>
    have hextend := Cursor.tokens_extend (c := Cursor.start ⟨lines, none⟩) rfl h [] []
    have hend : ∀ n, Cursor.tokens ⟨n, 0, [], [], none⟩ = [⟨.eos, .point ⟨max n 1, 1⟩⟩] :=
      fun n => Cursor.tokens_of_terminal rfl
    rw [hend] at hextend
    exact ⟨_, hextend⟩
  | @trailing line line' later later' htrailing =>
    have htrails : Cursor.Trails (.start ⟨line :: later, none⟩) (.start ⟨line' :: later', none⟩) :=
      ⟨rfl, rfl, .cons [] htrailing, rfl, rfl⟩
    exact htrails.tokens h

/-- The tokens of two texts with a line end between them, if there is no lexical error in
    the first one and there is a line in the second one. -/
theorem Source.tokens_seam {cs ds : List Char} {ts : List Token} {span : Span}
    (h : (Source.ofChars cs).tokens = ts ++ [⟨.eos, span⟩]) (hne : ds ≠ []) :
    (Source.ofChars (cs ++ '\n' :: ds)).tokens =
      ts ++ relocate (Location.down (cs.count '\n' + 1)) (Source.ofChars ds).tokens := by
  obtain ⟨span', hclosed⟩ := Source.tokens_closed h
  obtain ⟨line, -, later, -, hlines, -, -⟩ := exists_first_line hne
  have hextend := Cursor.tokens_extend (c := Cursor.start (ofChars (cs ++ ['\n']))) rfl hclosed
    line later
  have hstart : Cursor.start (ofChars (cs ++ '\n' :: ds)) =
      (Cursor.start (ofChars (cs ++ ['\n']))).extend (line :: later) := by
    simp only [Cursor.start, Cursor.extend, ofChars, Text.lines_seam cs ds, hlines]
  have hsecond : (Source.ofChars ds).tokens = Cursor.tokens ⟨1, 0, line, later, none⟩ := by
    rw [Source.tokens, Source.ofChars, hlines]
    exact Cursor.tokens_lineEnd 0 0 later none line
  have hmoved := Cursor.moved_down (c := ⟨1, 0, line, later, none⟩) (Nat.le_refl 1)
    (cs.count '\n' + 1)
  rw [Source.tokens, hstart, hextend, hsecond, ← hmoved.tokens]
  have hcount : (Cursor.start (ofChars (cs ++ ['\n']))).line +
      (Cursor.start (ofChars (cs ++ ['\n']))).later.length + 1 = 1 + (cs.count '\n' + 1) := by
    have hlength := Text.length_lines_closed cs
    simp only [Cursor.start, ofChars, hlength]
    omega
  rw [hcount]

end Shc
