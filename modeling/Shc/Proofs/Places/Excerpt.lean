import Shc.Diagnostic
import Shc.Proofs.Lexing.Place

/-!
# Spans are shown as they stand in the text

A span may be any two places, so showing it cuts its columns to the line and allows for a
line that is not there.  For a span that lies in the text there is nothing to cut: what is
underlined is the part of the text that the span covers, as far as it is on the first line.
-/

namespace Shc.Diagnostic

/-! ### What is shown -/

/-- A text between two control sequences, where colour is wanted. -/
def colored (color : Bool) (before text after : String) : String :=
  if color then before ++ text ++ after else text

/-- The message and the place. -/
def heading (message : String) (loc : Location) (color : Bool) : String :=
  colored color "\x1b[38;5;9m\x1b[1m" "error:" "\x1b[0m" ++ " " ++
    colored color "\x1b[1m" message "\x1b[0m" ++ "\n" ++
    " --> " ++ ("line " ++ Text.decimal loc.line ++ ", column " ++ Text.decimal loc.column) ++ "\n"

/-- A line of three parts, `marked` being the one that is underlined, and the underline behind
    `indent`. -/
def marking (span : Span) (front marked back indent : List Char) (color : Bool) : String :=
  let number := Text.decimal span.start.line
  let gutter := Text.row ' ' number.length
  gutter ++ " |\n" ++
    (number ++ " | " ++ String.ofList front ++
      colored color "\x1b[38;5;9m" (String.ofList marked) "\x1b[39m" ++ String.ofList back ++
      "\n") ++
    (gutter ++ " | " ++ String.ofList indent ++
      colored color "\x1b[38;5;9m\x1b[1m" (Text.row '^' (max marked.length 1)) "\x1b[0m" ++
      "\n") ++
    (if span.start.line < span.stop.line then gutter ++ " | ...\n" else "")

/-- What stands in front of an underline: it is as wide as what is above it, and has its
    tabs. -/
structure Indents (front indent : List Char) : Prop where
  indent_length : indent.length = front.length
  indent_eq : ∀ (i : Nat) (c : Char), front[i]? = some c →
    indent[i]? = some (if c = '\t' then '\t' else ' ')

theorem indents_underlay (front : List Char) : Indents front (underlay front) := by
  constructor
  · rw [underlay, List.length_map]
  · intro i c hc
    rw [underlay, List.getElem?_map, hc]
    rfl

/-- The message comes first, then the line, if there is one. -/
theorem render_eq (source message : String) (span : Span) (color : Bool) :
    render source message span color = heading message span.start color ++
      (lineAt? source span.start.line).elim "" (excerpt · span color) := by
  have hheader : header message color ++ " --> " ++ span.start.describe ++ "\n" =
      heading message span.start color := by
    cases color <;> rfl
  rw [render, hheader]
  cases lineAt? source span.start.line <;> rfl

theorem red_apply (color : Bool) (text : String) :
    (Style.red.given color).apply text = colored color "\x1b[38;5;9m" text "\x1b[39m" := by
  cases color <;> rfl

theorem redBold_apply (color : Bool) (text : String) :
    (Style.redBold.given color).apply text =
      colored color "\x1b[38;5;9m\x1b[1m" text "\x1b[0m" := by
  cases color <;> rfl

/-! ### Spans in the text -/

/-- The span is that of the characters `covered` of the text.  It starts on the line `line`,
    its columns are columns of that line as they are, and whatever the message is about it,
    the part of `covered` on that line is what is underlined. -/
structure Shows (text : String) (span : Span) (line covered : List Char) : Prop where
  line_pos : 1 ≤ span.start.line
  line_eq : ((Text.segments text.toList).map Text.strip)[span.start.line - 1]? = some line
  column_pos : 1 ≤ span.start.column
  column_le : span.start.column ≤ line.length + 1
  le_stop : span.start.line ≤ span.stop.line
  stop_column : span.start.line = span.stop.line →
    span.start.column ≤ span.stop.column ∧ span.stop.column ≤ line.length + 1
  columns_eq : columns span line.length =
    (span.start.column - 1,
      if span.start.line < span.stop.line then line.length else span.stop.column - 1)
  holds : ∃ before after, span.Holds text.toList before covered after
  render_eq : ∃ front marked back indent, line = front ++ (marked ++ back) ∧
    front.length + 1 = span.start.column ∧
    FirstLine covered marked (decide (span.start.line < span.stop.line)) ∧
    Indents front indent ∧
    ∀ message color, render text message span color =
      heading message span.start color ++ marking span front marked back indent color

theorem lineAt?_eq_segments (text : String) (n : Nat) :
    lineAt? text n = ((Text.segments text.toList).map Text.strip)[n - 1]? := by
  rw [lineAt?, Text.lines_eq_segments]

section

variable {span : Span} {line : List Char}

/-- Columns of the line are not cut. -/
theorem columns_of_le (hcolumn : span.start.column ≤ line.length + 1)
    (hstop : ¬ span.start.line < span.stop.line →
      span.start.column ≤ span.stop.column ∧ span.stop.column ≤ line.length + 1) :
    columns span line.length =
      (span.start.column - 1,
        if span.start.line < span.stop.line then line.length else span.stop.column - 1) := by
  have hstart : min (span.start.column - 1) line.length = span.start.column - 1 :=
    Nat.min_eq_left (by omega)
  rw [columns, hstart]
  by_cases hlt : span.start.line < span.stop.line
  · rw [if_pos hlt, if_pos hlt]
  · obtain ⟨hle, hend⟩ := hstop hlt
    rw [if_neg hlt, if_neg hlt, Nat.min_eq_left (by omega), Nat.max_eq_right (by omega)]

/-- A line in three parts, the middle one of which is marked. -/
theorem exists_parts (hpos : 1 ≤ span.start.column) (hcolumn : span.start.column ≤ line.length + 1)
    (hstop : ¬ span.start.line < span.stop.line →
      span.start.column ≤ span.stop.column ∧ span.stop.column ≤ line.length + 1) :
    ∃ front back, line = front ++ (span.marked line ++ back) ∧
      front.length + 1 = span.start.column ∧
      ∀ color, excerpt line span color =
        marking span front (span.marked line) back (underlay front) color := by
  have hfront : (line.take (span.start.column - 1)).length + 1 = span.start.column := by
    rw [List.length_take]
    omega
  by_cases hlt : span.start.line < span.stop.line
  · have hmarked : span.marked line = line.drop (span.start.column - 1) := by
      rw [Span.marked, if_pos hlt]
    have hwhole : (line.drop (span.start.column - 1)).take
        (line.length - (span.start.column - 1)) = line.drop (span.start.column - 1) := by
      rw [← List.length_drop, List.take_length]
    refine ⟨line.take (span.start.column - 1), [], ?_, hfront, fun color => ?_⟩
    · rw [hmarked, List.append_nil, List.take_append_drop]
    · rw [excerpt, columns_of_le hcolumn hstop, marking]
      simp only [if_pos hlt, red_apply, redBold_apply]
      rw [hwhole, hmarked, List.length_drop, List.drop_length]
  · obtain ⟨hle, hend⟩ := hstop hlt
    have hmarked : span.marked line =
        (line.drop (span.start.column - 1)).take (span.stop.column - span.start.column) := by
      rw [Span.marked, if_neg hlt]
    have hwidth : span.stop.column - 1 - (span.start.column - 1) =
        span.stop.column - span.start.column := by
      omega
    have hlength : (span.marked line).length = span.stop.column - span.start.column := by
      rw [hmarked, List.length_take, List.length_drop]
      omega
    have hback : line.drop (span.stop.column - 1) =
        (line.drop (span.start.column - 1)).drop (span.stop.column - span.start.column) := by
      rw [List.drop_drop]
      congr 1
      omega
    refine ⟨line.take (span.start.column - 1), line.drop (span.stop.column - 1), ?_, hfront,
      fun color => ?_⟩
    · rw [hmarked, hback, List.take_append_drop, List.take_append_drop]
    · rw [excerpt, columns_of_le hcolumn hstop, marking]
      simp only [if_neg hlt, red_apply, redBold_apply]
      rw [hwidth, ← hmarked, hlength]

end

/-- A span that lies in the lines of a text is shown as it stands there. -/
theorem exists_shows {text : String} {span : Span} (h : span.In (Text.lines text.toList)) :
    ∃ line covered, Shows text span line covered := by
  obtain ⟨line, hline⟩ := h.start_on
  obtain ⟨before, covered, after, hholds, hfirst⟩ := h.exists_holds hline
  have hlines := hline.line_eq
  rw [Text.lines_eq_segments] at hlines
  have hle : span.start.line ≤ span.stop.line := by
    rcases h.le with hlt | ⟨heq, -⟩
    · exact Nat.le_of_lt hlt
    · exact Nat.le_of_eq heq
  have hstop : ¬ span.start.line < span.stop.line →
      span.start.column ≤ span.stop.column ∧ span.stop.column ≤ line.length + 1 :=
    fun hlt => h.stop_column_le hline (by omega)
  obtain ⟨front, back, hparts, hfront, hexcerpt⟩ :=
    exists_parts hline.column_pos hline.column_le hstop
  refine ⟨line, covered, hline.line_pos, hlines, hline.column_pos, hline.column_le, hle,
    h.stop_column_le hline, columns_of_le hline.column_le hstop, ⟨before, after, hholds⟩,
    front, span.marked line, back, underlay front, hparts, hfront, hfirst,
    indents_underlay front, ?_⟩
  intro message color
  rw [Diagnostic.render_eq, lineAt?_eq_segments, hlines, Option.elim_some, hexcerpt color]

/-! ### Tokens -/

/-- A message about the place `loc` is a message about the token `t` that starts there, and
    what is underlined is the lexeme of `t`. -/
structure Marks (text : String) (loc : Location) (t : Token) : Prop where
  mem : t ∈ (Source.ofString text).tokens
  loc_eq : t.loc = loc
  find_eq : (Source.ofString text).tokens.find? (·.loc = loc) = some t
  oneLine : t.span.start.line = t.span.stop.line
  shows : ∃ line lexeme, Lexeme.Spelling lexeme t.kind ∧ Shows text t.span line lexeme
  renderAt_eq : ∀ message color, renderAt text message loc color = render text message t.span color

/-- What is shown of a token is its lexeme. -/
theorem marks_of_mem {text : String} {t : Token} (ht : t ∈ (Source.ofString text).tokens)
    (hproper : t.isTerminal = false) : Marks text t.loc t := by
  have hfind := Source.find?_loc ht hproper
  obtain ⟨hline, before, lexeme, after, hholds, hspelling⟩ := Source.exists_lexeme ht hproper
  have hspan := Source.span_in_lines (Source.ne_nil_of_token ht hproper) ht
  obtain ⟨line, covered, hshows⟩ := exists_shows hspan
  obtain ⟨before', after', hcovered⟩ := hshows.holds
  obtain rfl := hholds.unique hcovered
  refine ⟨ht, rfl, hfind, hline, ⟨line, lexeme, hspelling, hshows⟩, ?_⟩
  intro message color
  have hspanAt : spanAt text t.loc = t.span := by
    rw [spanAt, Source.ofString, hfind]
  rw [renderAt, hspanAt]

end Shc.Diagnostic
