import Shc.Proofs.Lexing.Cover
import Shc.Proofs.Lexing.Trailing
import Shc.Proofs.Text.Lines

/-!
# Places in a text

A place is a line number and a column.  It is a place of a text if the text has the line,
and the column is that of one of its characters or the one just past the last.  The places
of a text are reached by counting its characters from the front, and every token of a text,
the terminal one included, goes from one of them to a later one.

Lines can be said in two ways.  `Text.lines` goes through the characters and never looks
back; `segments` cuts the text behind every line feed, and `strip` then takes a line feed
off the end and a carriage return in front of it.
-/

namespace Shc

open Token (Kind)

/-! ### Lines cut out of the text -/

namespace Text

/-- The pieces of a text that line feeds end, each with its line feed, and what follows
    the last one. -/
def segments : List Char → List (List Char)
  | [] => []
  | c :: cs =>
    if c = '\n' then [c] :: segments cs
    else
      match segments cs with
      | [] => [[c]]
      | segment :: later => (c :: segment) :: later

/-- The characters without the given one at their end. -/
def dropEnd (c : Char) (cs : List Char) : List Char :=
  if cs.getLast? = some c then cs.dropLast else cs

/-- A line without its line end. -/
def strip (segment : List Char) : List Char :=
  if segment.getLast? = some '\n' then dropEnd '\r' segment.dropLast else segment

theorem segments_eq_segmentsBy (cs : List Char) : segments cs = segmentsBy '\n' cs := by
  induction cs with
  | nil => rfl
  | cons c cs ih =>
    rw [segments, segmentsBy, ih]
    split
    · rfl
    · cases segmentsBy '\n' cs <;> rfl

/-- The lines of a text are its pieces without their line ends. -/
theorem lines_eq_segments (cs : List Char) : lines cs = (segments cs).map strip := by
  rw [lines, linesBy_eq_map_stripBy, segments_eq_segmentsBy]
  rfl

end Text

/-! ### Tokens lie in the lines -/

/-- The place is on the line `line`, in front of one of its characters or at its end. -/
structure Location.On (lines : List (List Char)) (l : Location) (line : List Char) : Prop where
  line_pos : 1 ≤ l.line
  line_eq : lines[l.line - 1]? = some line
  column_pos : 1 ≤ l.column
  column_le : l.column ≤ line.length + 1

/-- The span goes from a place of the lines to one that is not in front of it. -/
structure Span.In (lines : List (List Char)) (span : Span) : Prop where
  start_on : ∃ line, span.start.On lines line
  stop_on : ∃ line, span.stop.On lines line
  le : span.start ≤ span.stop

/-- A comment that is open at `l` has been opened at a place in front of it. -/
def Gap.In (lines : List (List Char)) (l : Location) : Gap → Prop
  | .space => True
  | .comment start => Span.In lines ⟨start, l⟩

/-- The cursor is on one of the lines. -/
structure Cursor.In (lines : List (List Char)) (c : Cursor) : Prop where
  line_pos : 1 ≤ c.line
  line_eq : ∃ front, lines[c.line - 1]? = some (front ++ c.rest) ∧ front.length = c.column
  later_eq : lines.drop c.line = c.later
  failure_eq : c.failure = none

namespace Cursor.In

variable {lines : List (List Char)} {c : Cursor}

theorem exists_on (h : c.In lines) : ∃ line, c.loc.On lines line := by
  obtain ⟨front, hline, hfront⟩ := h.line_eq
  rw [loc_eq h.line_pos]
  refine ⟨_, h.line_pos, hline, Nat.le_add_left .., ?_⟩
  rw [List.length_append]
  dsimp only
  omega

theorem skip (h : c.In lines) {width : Nat} (hwidth : width ≤ c.rest.length) :
    (c.skip width).In lines := by
  obtain ⟨front, hline, hfront⟩ := h.line_eq
  refine ⟨h.line_pos, ⟨front ++ c.rest.take width, ?_, ?_⟩, h.later_eq, h.failure_eq⟩
  · rw [Cursor.skip, List.append_assoc, List.take_append_drop]
    exact hline
  · rw [Cursor.skip, List.length_append, List.length_take, Nat.min_eq_left hwidth, hfront]

/-- On a line the cursor moves on from one place to a later one. -/
theorem span_skip (h : c.In lines) {width : Nat} (hwidth : width ≤ c.rest.length) :
    Span.In lines ⟨c.loc, (c.skip width).loc⟩ := by
  refine ⟨h.exists_on, (h.skip hwidth).exists_on, ?_⟩
  rw [Location.le_iff]
  right
  simp [loc, Cursor.skip]

/-- The line after the current one. -/
theorem nextLine (h : c.In lines) {next : List Char} {later : List (List Char)}
    (hlater : c.later = next :: later) :
    Cursor.In lines ⟨c.line + 1, 0, next, later, c.failure⟩ := by
  have hdrop := h.later_eq
  rw [hlater] at hdrop
  refine ⟨Nat.le_add_left .., ⟨[], ?_, rfl⟩, ?_, h.failure_eq⟩
  · have hhead := congrArg List.head? hdrop
    rw [List.head?_drop] at hhead
    exact hhead
  · have htail := congrArg List.tail hdrop
    rw [List.tail_drop] at htail
    exact htail

end Cursor.In

theorem Span.In.mono {lines : List (List Char)} {start l l' : Location}
    (h : Span.In lines ⟨start, l⟩) (hon : ∃ line, l'.On lines line) (hle : l ≤ l') :
    Span.In lines ⟨start, l'⟩ :=
  ⟨h.start_on, hon, Location.le_trans h.le hle⟩

theorem Gap.In.mono {lines : List (List Char)} {l l' : Location} {gap : Gap} (h : gap.In lines l)
    (hon : ∃ line, l'.On lines line) (hle : l ≤ l') : gap.In lines l' := by
  cases gap with
  | space => trivial
  | comment start => exact Span.In.mono h hon hle

theorem Gap.In.of_column_eq {lines : List (List Char)} {line column column' : Nat} {gap : Gap}
    (h : gap.In lines ⟨line, column⟩) (heq : column = column') : gap.In lines ⟨line, column'⟩ :=
  heq ▸ h

/-- A cursor goes on by `width` characters, with the gap as it is behind them. -/
theorem Cursor.In.pass {lines later : List (List Char)} {failure : Option ReadError}
    {line column : Nat} {cs : List Char} {gap : Gap} (width : Nat)
    (h : Cursor.In lines ⟨line, column, cs, later, failure⟩) (hwidth : width ≤ cs.length)
    (hgap : gap.In lines ⟨line, column + 1⟩) :
    Cursor.In lines ⟨line, column + width, cs.drop width, later, failure⟩ ∧
      gap.In lines ⟨line, column + width + 1⟩ := by
  have hskip := h.skip hwidth
  refine ⟨hskip, hgap.mono ?_ (.inr ⟨rfl, by dsimp only; omega⟩)⟩
  have hon := hskip.exists_on
  rwa [Cursor.loc_eq hskip.line_pos] at hon

/-- At the end of a line a comment is open only if it was opened on this line or before. -/
theorem Gap.in_of_cross {lines later : List (List Char)} {failure : Option ReadError}
    {line column : Nat} {gap gap' : Gap} {cs : List Char}
    (h : Cursor.In lines ⟨line, column, cs, later, failure⟩)
    (hgap : gap.In lines ⟨line, column + 1⟩) (hcross : cross line gap column cs = .lineEnd gap') :
    gap'.In lines ⟨line, column + cs.length + 1⟩ := by
  fun_induction cross line gap column cs with
  | case1 gap column =>
    cases hcross
    exact hgap
  | case2 column body =>
    cases hcross
    trivial
  | case3 column rest ih =>
    have hopen : Gap.In lines ⟨line, column + 1⟩ (.comment ⟨line, column + 1⟩) := by
      have hon := h.exists_on
      rw [Cursor.loc_eq h.line_pos] at hon
      exact ⟨hon, hon, Location.le_refl _⟩
    obtain ⟨hc, hin⟩ := h.pass 2 (by simp) hopen
    apply (ih hc hin hcross).of_column_eq
    simp only [List.length_cons]
    omega
  | case4 column c rest _ _ hblank ih =>
    obtain ⟨hc, hin⟩ := h.pass 1 (by simp) hgap
    apply (ih hc hin hcross).of_column_eq
    simp only [List.length_cons]
    omega
  | case5 column c rest => cases hcross
  | case6 start column rest ih =>
    have hclosed : Gap.In lines ⟨line, column + 1⟩ .space := trivial
    obtain ⟨hc, hin⟩ := h.pass 2 (by simp) hclosed
    apply (ih hc hin hcross).of_column_eq
    simp only [List.length_cons]
    omega
  | case7 start column c rest hopen ih =>
    obtain ⟨hc, hin⟩ := h.pass 1 (by simp) hgap
    apply (ih hc hin hcross).of_column_eq
    simp only [List.length_cons]
    omega

namespace Cursor

variable {lines : List (List Char)}

theorem In.take {c : Cursor} {head : Char} {tail : List Char} (h : c.In lines)
    (hrest : c.rest = head :: tail) :
    (c.take head tail).1.span.In lines ∧ (c.take head tail).2.In lines := by
  have hwidth : (Lexeme.read head tail).2 ≤ c.rest.length := by
    rw [hrest]
    exact Lexeme.read_snd_le head tail
  exact ⟨h.span_skip hwidth, h.skip hwidth⟩

theorem In.terminal {c : Cursor} {gap : Gap} (h : c.In lines) (hgap : gap.In lines c.loc) :
    (c.terminal gap).span.In lines := by
  cases gap with
  | space =>
    rw [terminal_space h.failure_eq]
    exact ⟨h.exists_on, h.exists_on, Location.le_refl _⟩
  | comment start =>
    rw [terminal_comment h.failure_eq]
    exact hgap

/-- A token on the current line. -/
theorem In.take_of_cross {later : List (List Char)} {line column column' : Nat} {head : Char}
    {rest tail : List Char} {gap : Gap} (h : Cursor.In lines ⟨line, column, rest, later, none⟩)
    (hcross : Gap.cross line gap column rest = .token column' head tail) :
    (Cursor.take ⟨line, column', head :: tail, later, none⟩ head tail).1.span.In lines ∧
      (Cursor.take ⟨line, column', head :: tail, later, none⟩ head tail).2.In lines := by
  obtain ⟨hle, hdrop⟩ := Gap.cross_token hcross
  have hpos := congrArg List.length hdrop
  rw [List.length_drop, List.length_cons] at hpos
  have hwidth : column' - column ≤ rest.length := by omega
  have hskip := h.skip hwidth
  rw [Cursor.skip] at hskip
  dsimp only at hskip
  rw [hdrop, Nat.add_sub_cancel' hle] at hskip
  exact hskip.take rfl

/-- The next token lies in the lines, and so does the place behind it. -/
theorem In.nextIn (later : List (List Char)) {line column : Nat} {rest : List Char} {gap : Gap}
    (h : Cursor.In lines ⟨line, column, rest, later, none⟩)
    (hgap : gap.In lines ⟨line, column + 1⟩) :
    (nextIn none later line column rest gap).1.span.In lines ∧
      (nextIn none later line column rest gap).2.In lines := by
  induction later generalizing line column rest gap with
  | nil =>
    rw [Cursor.nextIn]
    cases hcross : Gap.cross line gap column rest with
    | token column' head tail => exact h.take_of_cross hcross
    | lineEnd gap' =>
      have hend := h.skip (Nat.le_refl rest.length)
      rw [Cursor.skip, List.drop_length] at hend
      refine ⟨hend.terminal ?_, hend⟩
      rw [loc_eq hend.line_pos]
      exact Gap.in_of_cross h hgap hcross
  | cons next later ih =>
    rw [Cursor.nextIn]
    cases hcross : Gap.cross line gap column rest with
    | token column' head tail => exact h.take_of_cross hcross
    | lineEnd gap' =>
      have hnext := h.nextLine rfl
      refine ih hnext ((Gap.in_of_cross h hgap hcross).mono ?_ (.inl (Nat.lt_succ_self line)))
      have hon := hnext.exists_on
      rwa [loc_eq hnext.line_pos] at hon

/-- All tokens from the cursor on lie in the lines. -/
theorem In.tokens {c : Cursor} (h : c.In lines) : ∀ t ∈ c.tokens, t.span.In lines := by
  induction hsize : c.size using Nat.strongRecOn generalizing c with
  | _ n ih =>
    obtain ⟨line, column, rest, later, failure⟩ := c
    obtain rfl : failure = none := h.failure_eq
    have hgap : Gap.In lines ⟨line, column + 1⟩ .space := trivial
    obtain ⟨htoken, hbehind⟩ := In.nextIn later h hgap
    intro t ht
    rw [Cursor.tokens] at ht
    split at ht
    · rw [List.mem_singleton.1 ht]
      exact htoken
    · rename_i hterminal
      rw [Bool.not_eq_true] at hterminal
      rcases List.mem_cons.1 ht with rfl | ht
      · exact htoken
      · exact ih _ (hsize ▸ size_next_lt _ hterminal) hbehind rfl t ht

end Cursor

/-- The tokens of a text that is not empty lie in its lines. -/
theorem Source.span_in_lines {cs : List Char} (hne : cs ≠ []) {t : Token}
    (ht : t ∈ (Source.ofChars cs).tokens) : t.span.In (Text.lines cs) := by
  obtain ⟨line, tail, later, -, hlines, -, -⟩ := exists_first_line hne
  rw [Source.tokens, Cursor.start, Source.ofChars, hlines, Cursor.tokens_lineEnd] at ht
  rw [hlines]
  refine Cursor.In.tokens ?_ t ht
  exact ⟨Nat.le_refl 1, ⟨[], rfl, rfl⟩, rfl, rfl⟩

/-! ### Places are reached by counting -/

namespace Location

theorem after_lf (l : Location) (cs : List Char) :
    l.after ('\n' :: cs) = after ⟨l.line + 1, 1⟩ cs := by
  rw [after, if_pos rfl]

theorem after_crlf (l : Location) (cs : List Char) :
    l.after ('\r' :: '\n' :: cs) = after ⟨l.line + 1, 1⟩ cs := by
  rw [after, if_neg (by decide), after_lf]

/-- Only no characters lead back to the same place or to an earlier one. -/
theorem eq_nil_of_after_le {l : Location} {cs : List Char} (h : l.after cs ≤ l) : cs = [] := by
  cases cs with
  | nil => rfl
  | cons c cs =>
    rw [after] at h
    have hle := le_trans (le_after _ cs) h
    rw [le_iff] at hle
    split_ifs at hle
    · dsimp only at hle
      omega
    · dsimp only at hle
      omega

/-- A stretch of text without a line feed is known by where it ends. -/
theorem line_after_eq_iff (l : Location) (cs : List Char) :
    (l.after cs).line = l.line ↔ '\n' ∉ cs := by
  constructor
  · intro h hmem
    obtain ⟨before, rest, rfl⟩ := List.append_of_mem hmem
    have hle := le_after (after ⟨(l.after before).line + 1, 1⟩ []) rest
    have hfirst := le_after l before
    rw [after_append, after_lf] at h
    rw [le_iff] at hle hfirst
    simp only [after] at hle
    omega
  · intro h
    rw [after_line l h]

end Location

namespace Text

/-- A line of a text, with what is in front of it and behind it. -/
theorem exists_line {cs line : List Char} {n : Nat} (h : (lines cs)[n]? = some line) (k : Nat) :
    ∃ before tail, cs = before ++ (line ++ tail) ∧ Location.after ⟨k, 1⟩ before = ⟨k + n, 1⟩ ∧
      '\n' ∉ line ∧ Lexeme.AtLineEnd tail := by
  induction n generalizing cs k with
  | zero =>
    have hne : cs ≠ [] := by
      rintro rfl
      cases h
    obtain ⟨first, tail, later, hcs, hlines, hfirst, hend⟩ := exists_first_line hne
    rw [hlines] at h
    obtain rfl : first = line := Option.some.inj h
    exact ⟨[], tail, hcs, rfl, hfirst, hend.atLineEnd⟩
  | succ n ih =>
    have hne : cs ≠ [] := by
      rintro rfl
      cases h
    obtain ⟨first, tail, later, rfl, hlines, hfirst, hend⟩ := exists_first_line hne
    rw [hlines] at h
    have hplace : ∀ before : List Char, Location.after ⟨k + 1, 1⟩ before = ⟨k + 1 + n, 1⟩ →
        Location.after ⟨k + 1, 1⟩ before = ⟨k + (n + 1), 1⟩ := by
      intro before hbefore
      rw [hbefore, Nat.add_right_comm, Nat.add_assoc]
    cases hend with
    | stop => cases h
    | lf cs =>
      obtain ⟨before, tail, rfl, hbefore, hline, htail⟩ := ih h (k + 1)
      refine ⟨first ++ '\n' :: before, tail, by simp, ?_, hline, htail⟩
      rw [Location.after_append, Location.after_line _ hfirst, Location.after_lf]
      exact hplace before hbefore
    | crlf cs =>
      obtain ⟨before, tail, rfl, hbefore, hline, htail⟩ := ih h (k + 1)
      refine ⟨first ++ '\r' :: '\n' :: before, tail, by simp, ?_, hline, htail⟩
      rw [Location.after_append, Location.after_line _ hfirst, Location.after_crlf]
      exact hplace before hbefore

/-- What is in front of a place of the text, and the rest of its line. -/
theorem exists_place {cs line : List Char} {l : Location} (h : l.On (lines cs) line) :
    ∃ before tail, '\n' ∉ line ∧ Lexeme.AtLineEnd tail ∧ ∀ column, column ≤ line.length →
      cs = (before ++ line.take column) ++ (line.drop column ++ tail) ∧
        Location.after ⟨1, 1⟩ (before ++ line.take column) = ⟨l.line, column + 1⟩ := by
  obtain ⟨before, tail, hcs, hbefore, hline, htail⟩ := exists_line h.line_eq 1
  refine ⟨before, tail, hline, htail, ?_⟩
  intro column hcolumn
  constructor
  · rw [hcs, List.append_assoc, ← List.append_assoc (line.take _), List.take_append_drop]
  · have hpos := h.line_pos
    rw [Location.after_append, hbefore,
      Location.after_line _ fun hmem => hline (List.mem_of_mem_take hmem), List.length_take,
      Nat.min_eq_left hcolumn]
    simp only [Location.mk.injEq]
    omega

/-- Two places in their order: the text in front of the first, and what lies between them. -/
theorem exists_between {cs before before' : List Char} (h : before <+: cs) (h' : before' <+: cs)
    (hle : Location.after ⟨1, 1⟩ before ≤ Location.after ⟨1, 1⟩ before') :
    ∃ covered, before' = before ++ covered := by
  rcases List.prefix_or_prefix_of_prefix h h' with ⟨covered, hcovered⟩ | ⟨back, hback⟩
  · exact ⟨covered, hcovered.symm⟩
  · rw [← hback, Location.after_append] at hle
    obtain rfl := Location.eq_nil_of_after_le hle
    exact ⟨[], by simpa using hback⟩

/-- No two places of a text are the same. -/
theorem eq_of_after_eq {cs before before' : List Char} (h : before <+: cs) (h' : before' <+: cs)
    (hplace : Location.after ⟨1, 1⟩ before = Location.after ⟨1, 1⟩ before') : before = before' := by
  obtain ⟨more, hmore⟩ := exists_between h h' (hplace ▸ Location.le_refl _)
  rw [hmore, Location.after_append] at hplace
  have hback : Location.after (Location.after ⟨1, 1⟩ before) more ≤
      Location.after ⟨1, 1⟩ before := by
    rw [← hplace]
    exact Location.le_refl _
  rw [hmore, Location.eq_nil_of_after_le hback, List.append_nil]

end Text

/-! ### The text of a span -/

/-- The span is that of the characters `covered`, behind `before` and in front of `after`. -/
structure Span.Holds (span : Span) (cs before covered after : List Char) : Prop where
  text_eq : cs = before ++ (covered ++ after)
  start_eq : Location.after ⟨1, 1⟩ before = span.start
  stop_eq : Location.after ⟨1, 1⟩ (before ++ covered) = span.stop

/-- The first line of some characters, without its line end, and whether they go on behind it. -/
inductive FirstLine : List Char → List Char → Bool → Prop where
  | whole {cs : List Char} : '\n' ∉ cs → FirstLine cs cs false
  | lf {line : List Char} (more : List Char) : '\n' ∉ line →
      FirstLine (line ++ '\n' :: more) line true
  | crlf {line : List Char} (more : List Char) : '\n' ∉ line →
      FirstLine (line ++ '\r' :: '\n' :: more) line true

/-- The characters from a place to the end of its line or further. -/
theorem FirstLine.of_append {line tail covered after : List Char} (hline : '\n' ∉ line)
    (htail : Lexeme.AtLineEnd tail) (h : line ++ tail = covered ++ after)
    (hcovered : '\n' ∈ covered) : FirstLine covered line true := by
  rcases List.append_eq_append_iff.1 h with ⟨more, rfl, rfl⟩ | ⟨back, rfl, -⟩
  · have hmore : '\n' ∈ more := by
      rcases List.mem_append.1 hcovered with hmem | hmem
      · exact absurd hmem hline
      · exact hmem
    -- the line end is part of what is covered
    generalize hall : more ++ after = all at htail
    cases htail with
    | stop =>
      obtain ⟨rfl, -⟩ := List.append_eq_nil_iff.1 hall
      cases hmore
    | lf cs =>
      cases more with
      | nil => cases hmore
      | cons c more =>
        obtain ⟨rfl, -⟩ := List.cons.inj hall
        exact .lf more hline
    | crlf cs =>
      cases more with
      | nil => cases hmore
      | cons c more =>
        obtain ⟨rfl, hrest⟩ := List.cons.inj hall
        cases more with
        | nil => simp at hmore
        | cons d more =>
          obtain ⟨rfl, -⟩ := List.cons.inj hrest
          exact .crlf more hline
  · exact absurd (List.mem_append_left _ hcovered) hline

/-- The part of its first line that a span covers. -/
def Span.marked (span : Span) (line : List Char) : List Char :=
  if span.start.line < span.stop.line then line.drop (span.start.column - 1)
  else (line.drop (span.start.column - 1)).take (span.stop.column - span.start.column)

namespace Span.In

variable {span : Span} {cs line : List Char}

/-- A span that goes on covers the rest of its first line. -/
theorem exists_holds_of_lt (h : span.In (Text.lines cs))
    (hline : span.start.On (Text.lines cs) line)
    (hlt : span.start.line < span.stop.line) :
    ∃ before covered after, span.Holds cs before covered after ∧
      FirstLine covered (line.drop (span.start.column - 1)) true := by
  obtain ⟨line', hstop⟩ := h.stop_on
  obtain ⟨before, tail, hlf, htail, hplace⟩ := Text.exists_place hline
  obtain ⟨before', tail', -, -, hplace'⟩ := Text.exists_place hstop
  have hpos := hline.column_pos
  have hle := hline.column_le
  have hpos' := hstop.column_pos
  have hle' := hstop.column_le
  obtain ⟨hrest, hstart⟩ := hplace (span.start.column - 1) (by omega)
  obtain ⟨hrest', hfinish⟩ := hplace' (span.stop.column - 1) (by omega)
  rw [Nat.sub_add_cancel hpos] at hstart
  rw [Nat.sub_add_cancel hpos'] at hfinish
  -- what is covered is found by counting to the end of the span
  obtain ⟨covered, hcovered⟩ := Text.exists_between ⟨_, hrest.symm⟩ ⟨_, hrest'.symm⟩
    (by rw [hstart, hfinish]; exact h.le)
  rw [hcovered] at hfinish hrest'
  refine ⟨_, covered, _, ⟨by rw [hrest', List.append_assoc], hstart, hfinish⟩, ?_⟩
  have hlines : '\n' ∈ covered := by
    by_contra hnot
    rw [Location.after_append, hstart] at hfinish
    have hsame := (Location.line_after_eq_iff span.start covered).2 hnot
    rw [hfinish] at hsame
    exact absurd hsame (Nat.ne_of_gt hlt)
  have hall := hrest.symm.trans hrest'
  rw [List.append_assoc _ covered] at hall
  exact FirstLine.of_append (fun hmem => hlf (List.mem_of_mem_drop hmem)) htail
    (List.append_cancel_left hall) hlines

theorem stop_column_le (h : span.In (Text.lines cs)) (hline : span.start.On (Text.lines cs) line)
    (heq : span.start.line = span.stop.line) :
    span.start.column ≤ span.stop.column ∧ span.stop.column ≤ line.length + 1 := by
  obtain ⟨line', hstop⟩ := h.stop_on
  have hlines := hline.line_eq
  rw [heq, hstop.line_eq] at hlines
  obtain rfl := Option.some.inj hlines
  refine ⟨?_, hstop.column_le⟩
  rcases h.le with hlt | ⟨-, hle⟩
  · exact absurd heq (Nat.ne_of_lt hlt)
  · exact hle

/-- A span on one line covers the characters between its columns. -/
theorem exists_holds_of_eq (h : span.In (Text.lines cs))
    (hline : span.start.On (Text.lines cs) line)
    (heq : span.start.line = span.stop.line) :
    ∃ before after, span.Holds cs before
        ((line.drop (span.start.column - 1)).take (span.stop.column - span.start.column)) after ∧
      '\n' ∉ (line.drop (span.start.column - 1)).take (span.stop.column - span.start.column) := by
  obtain ⟨before, tail, hlf, -, hplace⟩ := Text.exists_place hline
  obtain ⟨hle, hstop⟩ := h.stop_column_le hline heq
  have hpos := hline.column_pos
  obtain ⟨-, hstart⟩ := hplace (span.start.column - 1) (by omega)
  obtain ⟨hrest, hfinish⟩ := hplace (span.stop.column - 1) (by omega)
  rw [Nat.sub_add_cancel hpos] at hstart
  rw [Nat.sub_add_cancel (by omega), heq] at hfinish
  have hsplit : line.take (span.stop.column - 1) = line.take (span.start.column - 1) ++
      (line.drop (span.start.column - 1)).take (span.stop.column - span.start.column) := by
    rw [← List.take_add]
    congr 1
    omega
  rw [hsplit, ← List.append_assoc before] at hfinish hrest
  refine ⟨_, _, ⟨hrest.trans (List.append_assoc ..), hstart, hfinish⟩, fun hmem => hlf ?_⟩
  exact List.mem_of_mem_drop (List.mem_of_mem_take hmem)

/-- A span in the lines of a text is the span of some of its characters, and it marks those
    that are on its first line. -/
theorem exists_holds (h : span.In (Text.lines cs)) (hline : span.start.On (Text.lines cs) line) :
    ∃ before covered after, span.Holds cs before covered after ∧
      FirstLine covered (span.marked line) (decide (span.start.line < span.stop.line)) := by
  by_cases hlt : span.start.line < span.stop.line
  · rw [Span.marked, if_pos hlt, decide_eq_true hlt]
    exact h.exists_holds_of_lt hline hlt
  · have heq : span.start.line = span.stop.line := by
      rcases h.le with hline | ⟨hline, -⟩
      · exact absurd hline hlt
      · exact hline
    rw [Span.marked, if_neg hlt, decide_eq_false hlt]
    obtain ⟨before, after, hholds, hlf⟩ := h.exists_holds_of_eq hline heq
    exact ⟨before, _, after, hholds, .whole hlf⟩

end Span.In

/-! ### The text of a token -/

/-- A span is the span of no other characters of the text. -/
theorem Span.Holds.unique {span : Span}
    {cs before covered after before' covered' after' : List Char}
    (h : span.Holds cs before covered after) (h' : span.Holds cs before' covered' after') :
    covered = covered' := by
  have hbefore := Text.eq_of_after_eq ⟨_, h.text_eq.symm⟩ ⟨_, h'.text_eq.symm⟩
    (h.start_eq.trans h'.start_eq.symm)
  have hcovered := Text.eq_of_after_eq
    ⟨after, (List.append_assoc ..).trans h.text_eq.symm⟩
    ⟨after', (List.append_assoc ..).trans h'.text_eq.symm⟩ (h.stop_eq.trans h'.stop_eq.symm)
  rw [hbefore] at hcovered
  exact List.append_cancel_left hcovered

namespace Covers

variable {l : Location} {text : List Char} {ts : List Token} {last : Token}

/-- A token that is not terminal stands for a lexeme of the text. -/
theorem exists_lexeme (h : Covers l text ts last) : ∀ t ∈ ts, ∃ before lexeme after,
    text = before ++ (lexeme ++ after) ∧ l.after before = t.span.start ∧
      l.after (before ++ lexeme) = t.span.stop ∧ Lexeme.Spelling lexeme t.kind := by
  induction h with
  | @token l gap lexeme rest kind ts last _ hlexeme _ ih =>
    intro t ht
    rcases List.mem_cons.1 ht with rfl | ht
    · exact ⟨gap, lexeme, rest, rfl, rfl, rfl, hlexeme.spelling⟩
    · obtain ⟨before, lexeme', after, rfl, hstart, hstop, hspelling⟩ := ih t ht
      refine ⟨gap ++ lexeme ++ before, lexeme', after, by simp, ?_, ?_, hspelling⟩
      · rw [Location.after_append]
        exact hstart
      · rw [List.append_assoc, Location.after_append]
        exact hstop
  | eos _ _ => simp
  | error _ _ => simp

/-- No two tokens start at the same place. -/
theorem pairwise_loc_ne (h : Covers l text ts last) :
    (ts ++ [last]).Pairwise fun t u => t.loc ≠ u.loc := by
  have hpairwise := List.pairwise_append.1 h.pairwise
  -- a token that is not terminal ends behind its start
  have hne : ∀ t ∈ ts, ∀ u : Token, t.span.stop ≤ u.span.start → t.loc ≠ u.loc := by
    intro t ht u hle heq
    obtain ⟨hline, hcolumn⟩ := h.oneLine t ht
    have hstart : t.span.start = u.span.start := heq
    rw [← hstart, Location.le_iff] at hle
    omega
  refine List.pairwise_append.2 ⟨?_, List.pairwise_singleton .., ?_⟩
  · exact hpairwise.1.imp_of_mem fun ht _ hle => hne _ ht _ hle
  · intro t ht u hu
    exact hne t ht u (hpairwise.2.2 t ht u hu)

end Covers

/-- The tokens of a text that is not empty cover it. -/
theorem Source.exists_covers {cs : List Char} (hne : cs ≠ []) :
    ∃ ts last, (Source.ofChars cs).tokens = ts ++ [last] ∧ Covers ⟨1, 1⟩ cs ts last := by
  obtain ⟨line, tail, later, rfl, hlines, hline, hend⟩ := exists_first_line hne
  rw [Source.tokens, Cursor.start, Source.ofChars, hlines, Cursor.tokens_lineEnd]
  obtain ⟨ts, last, htokens, hcovers, -⟩ :=
    Cursor.covers_tokens ⟨0 + 1, 0, line, later, none⟩ (Nat.le_refl 1) hline hend rfl
  exact ⟨ts, last, htokens, hcovers⟩

section

variable {cs : List Char} {t : Token}

/-- An empty text has only its end. -/
theorem Source.ne_nil_of_token (ht : t ∈ (Source.ofChars cs).tokens)
    (hproper : t.isTerminal = false) : cs ≠ [] := by
  rintro rfl
  have hterminal : (Cursor.start (Source.ofChars [])).next.1.isTerminal = true := rfl
  rw [Source.tokens, Cursor.tokens_of_terminal hterminal] at ht
  rw [List.mem_singleton.1 ht, hterminal] at hproper
  cases hproper

/-- A token is the only one that starts where it does. -/
theorem Source.find?_loc (ht : t ∈ (Source.ofChars cs).tokens) (hproper : t.isTerminal = false) :
    (Source.ofChars cs).tokens.find? (·.loc = t.loc) = some t := by
  obtain ⟨ts, last, htokens, hcovers⟩ := exists_covers (ne_nil_of_token ht hproper)
  have hpairwise := hcovers.pairwise_loc_ne
  rw [← htokens] at hpairwise
  obtain ⟨front, back, hsplit⟩ := List.append_of_mem ht
  rw [hsplit] at hpairwise ⊢
  have hfront : front.find? (fun u => decide (u.loc = t.loc)) = none := by
    rw [List.find?_eq_none]
    intro u hu
    simpa using (List.pairwise_append.1 hpairwise).2.2 u hu t List.mem_cons_self
  rw [List.find?_append, hfront, Option.none_or, List.find?_cons_of_pos (by simp)]

/-- A token stands on one line, and its span is that of a lexeme. -/
theorem Source.exists_lexeme (ht : t ∈ (Source.ofChars cs).tokens)
    (hproper : t.isTerminal = false) :
    t.span.start.line = t.span.stop.line ∧ ∃ before lexeme after,
      t.span.Holds cs before lexeme after ∧ Lexeme.Spelling lexeme t.kind := by
  obtain ⟨ts, last, htokens, hcovers⟩ := exists_covers (ne_nil_of_token ht hproper)
  rw [htokens] at ht
  have hmem : t ∈ ts := by
    rcases List.mem_append.1 ht with hmem | hlast
    · exact hmem
    · rw [List.mem_singleton.1 hlast, hcovers.isTerminal_last] at hproper
      cases hproper
  obtain ⟨before, lexeme, after, htext, hstart, hstop, hspelling⟩ := hcovers.exists_lexeme t hmem
  exact ⟨(hcovers.oneLine t hmem).1, before, lexeme, after, ⟨htext, hstart, hstop⟩, hspelling⟩

end

end Shc
