import Shc.Proofs.Places.Excerpt

/-!
# Any span can be shown, and colour is decoration only

A span may be any two places: line zero, a column behind the end of its line, a stop before
the start.  Showing it takes three parts of a line by their columns, which makes sense only
for columns in order and inside of the line.  `render?` checks that before every step and
gives up otherwise; it never does, and what it gives is the message.

A message in colour has control sequences in it.  `Style.seen` takes them out again, and what
is left is the message without colour.
-/

namespace Shc

theorem Text.mem_of_mem_lines {cs line : List Char} (hline : line ∈ lines cs) {c : Char}
    (hc : c ∈ line) : c ∈ cs := by
  rw [lines, linesBy_eq_map_stripBy, List.mem_map] at hline
  obtain ⟨segment, hsegment, rfl⟩ := hline
  obtain ⟨tail, heq, -⟩ := stripBy_append '\r' '\n' segment
  have hmem : c ∈ segment := by
    rw [heq]
    exact List.mem_append_left tail hc
  rw [← flatten_segmentsBy '\n' cs]
  exact List.mem_flatten.2 ⟨segment, hsegment, hmem⟩

/-! ### Control sequences -/

namespace Style

/-- What is seen of a text: everything but the control sequences, each from an escape
    character before an opening bracket up to the next `m`.  The flag says whether the text
    starts inside of one. -/
def seenFrom (inside : Bool) : List Char → List Char
  | [] => []
  | c :: cs =>
    if inside then seenFrom (c ≠ 'm') cs
    else if c = '\x1b' ∧ cs.head? = some '[' then seenFrom true cs
    else c :: seenFrom false cs

def seen (text : String) : String :=
  String.ofList (seenFrom false text.toList)

/-- What is seen of `styled` is `plain`, whatever stands behind it. -/
def Decorates (styled plain : String) : Prop :=
  ∀ rest, seenFrom false (styled.toList ++ rest) = plain.toList ++ seenFrom false rest

/-- A text without escape characters. -/
def Bare (text : String) : Prop :=
  '\x1b' ∉ text.toList

instance (text : String) : Decidable (Bare text) :=
  inferInstanceAs (Decidable ('\x1b' ∉ text.toList))

section

variable {a a' b b' text : String}

theorem seen_of_decorates (h : Decorates a b) : seen a = b := by
  have hseen := h []
  rw [List.append_nil, seenFrom, List.append_nil] at hseen
  rw [seen, hseen, String.ofList_toList]

theorem Decorates.append (h : Decorates a b) (h' : Decorates a' b') :
    Decorates (a ++ a') (b ++ b') := by
  intro rest
  rw [String.toList_append, String.toList_append, List.append_assoc, h, h', List.append_assoc]

theorem decorates_of_bare (h : Bare text) : Decorates text text := by
  intro rest
  rw [Bare] at h
  generalize text.toList = cs at h
  induction cs with
  | nil => rfl
  | cons c cs ih =>
    obtain ⟨hc, hcs⟩ := not_or.1 (mt List.mem_cons.2 h)
    rw [List.cons_append, seenFrom, if_neg (by decide), if_neg (fun hesc => hc hesc.1.symm), ih hcs]
    rfl

/-- Inside of a control sequence nothing is seen up to its end. -/
theorem seenFrom_inside {cs : List Char} (h : 'm' ∉ cs) (rest : List Char) :
    seenFrom true (cs ++ 'm' :: rest) = seenFrom false rest := by
  induction cs with
  | nil => rw [List.nil_append, seenFrom, if_pos rfl, decide_eq_false (fun hm => hm rfl)]
  | cons c cs ih =>
    obtain ⟨hc, hcs⟩ := not_or.1 (mt List.mem_cons.2 h)
    rw [List.cons_append, seenFrom, if_pos rfl, decide_eq_true (Ne.symm hc), ih hcs]

theorem decorates_control (parameters : String) (h : 'm' ∉ parameters.toList) :
    Decorates ("\x1b[" ++ parameters ++ "m") "" := by
  intro rest
  have hbracket : 'm' ∉ '[' :: parameters.toList :=
    mt List.mem_cons.1 (not_or.2 ⟨by decide, h⟩)
  have hcontrol : ("\x1b[" ++ parameters ++ "m").toList ++ rest =
      '\x1b' :: (('[' :: parameters.toList) ++ 'm' :: rest) := by
    simp
  rw [hcontrol, seenFrom, if_neg (by decide), if_pos ⟨rfl, rfl⟩, seenFrom_inside hbracket]
  rfl

theorem bare_ofList {cs : List Char} (h : '\x1b' ∉ cs) : Bare (String.ofList cs) := by
  rwa [Bare, String.toList_ofList]

theorem bare_append (h : Bare a) (h' : Bare b) : Bare (a ++ b) := by
  rw [Bare, String.toList_append]
  exact List.not_mem_append h h'

theorem bare_row {c : Char} (hc : c ≠ '\x1b') (n : Nat) : Bare (Text.row c n) :=
  bare_ofList fun hmem => hc (List.eq_of_mem_replicate hmem).symm

theorem bare_decimal (n : Nat) : Bare (Text.decimal n) :=
  bare_ofList fun hmem => absurd (Text.isDigit_digits n _ hmem) (by decide)

end

end Style

namespace Diagnostic

/-! ### Columns in order -/

theorem columns_le (span : Span) (length : Nat) :
    (columns span length).1 ≤ (columns span length).2 ∧ (columns span length).2 ≤ length := by
  rw [columns]
  dsimp only
  split <;> omega

/-- The number nearest to `n` between two bounds, which have to be in order. -/
def clamp? (n lo hi : Nat) : Option Nat :=
  if lo ≤ hi then some (if n < lo then lo else if hi < n then hi else n) else none

/-- The characters from one column to another, which have to be in order and on the line. -/
def slice? (line : List Char) (start stop : Nat) : Option (List Char) :=
  if start ≤ stop ∧ stop ≤ line.length then some ((line.drop start).take (stop - start)) else none

def columns? (span : Span) (length : Nat) : Option (Nat × Nat) := do
  let start := min (span.start.column - 1) length
  let stop ←
    if span.start.line < span.stop.line then some length
    else clamp? (span.stop.column - 1) start length
  return (start, stop)

def excerpt? (line : List Char) (span : Span) (color : Bool) : Option String := do
  let (start, stop) ← columns? span line.length
  let front ← slice? line 0 start
  let marked ← slice? line start stop
  let back ← slice? line stop line.length
  return marking span front marked back (underlay front) color

/-- The message, if no step of the way to it is out of range. -/
def render? (source message : String) (span : Span) (color : Bool) : Option String := do
  match lineAt? source span.start.line with
  | some line => return heading message span.start color ++ (← excerpt? line span color)
  | none => return heading message span.start color

theorem columns?_eq (span : Span) (length : Nat) :
    columns? span length = some (columns span length) := by
  have hstart : min (span.start.column - 1) length ≤ length := Nat.min_le_right _ _
  rw [columns?, columns, clamp?, if_pos hstart]
  dsimp only
  generalize min (span.start.column - 1) length = start at hstart ⊢
  by_cases hlt : span.start.line < span.stop.line
  · rw [if_pos hlt, if_pos hlt]
    rfl
  · rw [if_neg hlt, if_neg hlt]
    have hclamp : (if span.stop.column - 1 < start then start
        else if length < span.stop.column - 1 then length else span.stop.column - 1) =
        max start (min (span.stop.column - 1) length) := by
      split
      · omega
      · split <;> omega
    rw [hclamp]
    rfl

theorem slice?_eq {line : List Char} {start stop : Nat} (hle : start ≤ stop)
    (hstop : stop ≤ line.length) :
    slice? line start stop = some ((line.drop start).take (stop - start)) :=
  if_pos ⟨hle, hstop⟩

/-- The three parts of a line: in front of what is marked, that, and behind it. -/
structure Parts (span : Span) (line front marked back : List Char) : Prop where
  line_eq : line = front ++ (marked ++ back)
  columns_eq : columns span line.length = (front.length, front.length + marked.length)

/-- Every span has its part of every line, and the checks do not matter. -/
theorem exists_marking (span : Span) (line : List Char) :
    ∃ front marked back, Parts span line front marked back ∧ ∀ color,
      excerpt line span color = marking span front marked back (underlay front) color ∧
        excerpt? line span color = some (excerpt line span color) := by
  have hcolumns := columns?_eq span line.length
  obtain ⟨hle, hstop⟩ := columns_le span line.length
  rcases hpair : columns span line.length with ⟨start, stop⟩
  rw [hpair] at hcolumns hle hstop
  have hfront : (line.take start).length = start := by
    rw [List.length_take]
    exact Nat.min_eq_left (Nat.le_trans hle hstop)
  have hmarked : ((line.drop start).take (stop - start)).length = stop - start := by
    rw [List.length_take, List.length_drop]
    exact Nat.min_eq_left (Nat.sub_le_sub_right hstop start)
  have hback : line.drop stop = (line.drop start).drop (stop - start) := by
    rw [List.drop_drop, Nat.add_sub_cancel' hle]
  have hexcerpt : ∀ color, excerpt line span color =
      marking span (line.take start) ((line.drop start).take (stop - start)) (line.drop stop)
        (underlay (line.take start)) color := by
    intro color
    rw [excerpt, hpair, marking, hmarked]
    simp only [red_apply, redBold_apply]
  refine ⟨line.take start, (line.drop start).take (stop - start), line.drop stop, ⟨?_, ?_⟩,
    fun color => ⟨hexcerpt color, ?_⟩⟩
  · rw [hback, List.take_append_drop, List.take_append_drop]
  · rw [hpair, hfront, hmarked, Nat.add_sub_cancel' hle]
  · have hwhole : (line.drop stop).take (line.length - stop) = line.drop stop := by
      rw [← List.length_drop, List.take_length]
    rw [hexcerpt, excerpt?, hcolumns]
    simp only [Option.bind_eq_bind, Option.bind_some]
    rw [slice?_eq (Nat.zero_le start) (Nat.le_trans hle hstop), slice?_eq hle hstop,
      slice?_eq hstop (Nat.le_refl _), hwhole]
    rfl

theorem render?_eq (source message : String) (span : Span) (color : Bool) :
    render? source message span color = some (render source message span color) := by
  rw [render?, render_eq]
  cases lineAt? source span.start.line with
  | none => simp
  | some line =>
    obtain ⟨front, marked, back, -, h⟩ := exists_marking span line
    simp [(h color).2]

/-! ### Without colour -/

/-- The line as it is, and under it a row of carets with the given text in front. -/
def drawing (span : Span) (line indent : List Char) (carets : Nat) : String :=
  let number := Text.decimal span.start.line
  let gutter := Text.row ' ' number.length
  gutter ++ " |\n" ++
    (number ++ " | " ++ String.ofList line ++ "\n") ++
    (gutter ++ " | " ++ String.ofList indent ++ Text.row '^' carets ++ "\n") ++
    (if span.start.line < span.stop.line then gutter ++ " | ...\n" else "")

theorem marking_plain (span : Span) (front marked back indent : List Char) :
    marking span front marked back indent false =
      drawing span (front ++ (marked ++ back)) indent (max 1 marked.length) := by
  rw [marking, drawing, Nat.max_comm]
  simp [colored, String.append_assoc]

/-! ### In colour -/

section

open Style (Bare Decorates decorates_of_bare decorates_control bare_ofList bare_append bare_row
  bare_decimal)

theorem decorates_colored {before text after : String} (hbefore : Decorates before "")
    (htext : Bare text) (hafter : Decorates after "") :
    Decorates (colored true before text after) (colored false before text after) := by
  have hall := (hbefore.append (decorates_of_bare htext)).append hafter
  rwa [String.empty_append, String.append_empty] at hall

theorem decorates_red : Decorates "\x1b[38;5;9m" "" :=
  decorates_control "38;5;9" (by decide)

theorem decorates_bold : Decorates "\x1b[1m" "" :=
  decorates_control "1" (by decide)

theorem decorates_redBold : Decorates "\x1b[38;5;9m\x1b[1m" "" :=
  decorates_red.append decorates_bold

theorem decorates_reset : Decorates "\x1b[0m" "" :=
  decorates_control "0" (by decide)

theorem decorates_default : Decorates "\x1b[39m" "" :=
  decorates_control "39" (by decide)

theorem decorates_heading {message : String} (h : Bare message) (loc : Location) :
    Decorates (heading message loc true) (heading message loc false) := by
  have herror := decorates_colored decorates_redBold (by decide : Bare "error:") decorates_reset
  have hmessage := decorates_colored decorates_bold h decorates_reset
  have hblank : Decorates " " " " := decorates_of_bare (by decide)
  have harrow : Decorates " --> " " --> " := decorates_of_bare (by decide)
  have hend : Decorates "\n" "\n" := decorates_of_bare (by decide)
  have hplace := decorates_of_bare (bare_append (bare_append (bare_append (by decide : Bare "line ")
    (bare_decimal loc.line)) (by decide : Bare ", column ")) (bare_decimal loc.column))
  have hfirst := ((herror.append hblank).append hmessage).append hend
  exact ((hfirst.append harrow).append hplace).append hend

theorem decorates_marking (span : Span) {front marked back indent : List Char}
    (hfront : '\x1b' ∉ front) (hmarked : '\x1b' ∉ marked) (hback : '\x1b' ∉ back)
    (hindent : '\x1b' ∉ indent) :
    Decorates (marking span front marked back indent true)
      (marking span front marked back indent false) := by
  have hnumber := bare_decimal span.start.line
  have hgutter : Bare (Text.row ' ' (Text.decimal span.start.line).length) :=
    bare_row (by decide) _
  have hcarets := bare_row (by decide : '^' ≠ '\x1b') (max marked.length 1)
  unfold marking
  dsimp only
  generalize Text.row ' ' (Text.decimal span.start.line).length = gutter at hgutter ⊢
  have hbar : Bare " | " := by decide
  have hend : Decorates "\n" "\n" := decorates_of_bare (by decide)
  refine Decorates.append (Decorates.append (Decorates.append ?_ ?_) ?_) ?_
  · exact decorates_of_bare (bare_append hgutter (by decide))
  · have hstart := decorates_of_bare (bare_append (bare_append hnumber hbar) (bare_ofList hfront))
    exact ((hstart.append (decorates_colored decorates_red (bare_ofList hmarked)
      decorates_default)).append (decorates_of_bare (bare_ofList hback))).append hend
  · have hstart := decorates_of_bare (bare_append (bare_append hgutter hbar) (bare_ofList hindent))
    exact (hstart.append (decorates_colored decorates_redBold hcarets decorates_reset)).append hend
  · split
    · exact decorates_of_bare (bare_append hgutter (by decide))
    · exact decorates_of_bare (by decide)

theorem decorates_render {source message : String} (hsource : Bare source)
    (hmessage : Bare message) (span : Span) :
    Decorates (render source message span true) (render source message span false) := by
  have hheading := decorates_heading hmessage span.start
  rw [render_eq, render_eq]
  cases hline : lineAt? source span.start.line with
  | none =>
    have hnothing : Decorates "" "" := decorates_of_bare (by decide)
    exact hheading.append hnothing
  | some line =>
    obtain ⟨front, marked, back, hparts, hexcerpt⟩ := exists_marking span line
    have hbare : '\x1b' ∉ front ++ (marked ++ back) := by
      rw [← hparts.line_eq]
      exact fun hmem => hsource (Text.mem_of_mem_lines (List.mem_of_getElem? hline) hmem)
    rw [List.mem_append, List.mem_append, not_or, not_or] at hbare
    have hunder : '\x1b' ∉ underlay front := by
      intro hmem
      obtain ⟨c, -, hc⟩ := List.mem_map.1 hmem
      split at hc
      · exact absurd hc (by decide)
      · exact absurd hc (by decide)
    rw [Option.elim_some, Option.elim_some, (hexcerpt true).1, (hexcerpt false).1]
    exact hheading.append (decorates_marking span hbare.1 hbare.2.1 hbare.2.2 hunder)

end

/-! ### Any span -/

/-- How a line is shown without colour.  Its columns are in order, the indentation of the
    underline is as wide as what stands in front of the marked part, and has its tabs. -/
structure Drawn (span : Span) (line front marked back indent : List Char) : Prop extends
    Parts span line front marked back, Indents front indent where
  ordered : (columns span line.length).1 ≤ (columns span line.length).2
  inLine : (columns span line.length).2 ≤ line.length

theorem exists_drawn (span : Span) (line : List Char) :
    ∃ front marked back indent, Drawn span line front marked back indent ∧
      excerpt line span false = drawing span line indent (max 1 marked.length) := by
  obtain ⟨front, marked, back, hparts, hexcerpt⟩ := exists_marking span line
  obtain ⟨hordered, hinLine⟩ := columns_le span line.length
  refine ⟨front, marked, back, underlay front,
    ⟨hparts, indents_underlay front, hordered, hinLine⟩, ?_⟩
  rw [(hexcerpt false).1, marking_plain, ← hparts.line_eq]

/-- Every span of every source can be shown: no column is out of range on the way, and the
    message is drawn under the source line, if there is one.  Colour adds control sequences
    to it and nothing else. -/
theorem render_any_span (source message : String) (span : Span) :
    (∀ color, render? source message span color = some (render source message span color)) ∧
      (∀ line, lineAt? source span.start.line = some line →
        ∃ front marked back indent, Drawn span line front marked back indent ∧
          render source message span false =
            "error: " ++ message ++ "\n" ++ " --> " ++ span.start.describe ++ "\n" ++
              drawing span line indent (max 1 marked.length)) ∧
      (lineAt? source span.start.line = none →
        render source message span false =
          "error: " ++ message ++ "\n" ++ " --> " ++ span.start.describe ++ "\n") ∧
      (Style.Bare source → Style.Bare message →
        Style.seen (render source message span true) = render source message span false) := by
  have hheading : heading message span.start false =
      "error: " ++ message ++ "\n" ++ " --> " ++ span.start.describe ++ "\n" := rfl
  refine ⟨render?_eq source message span, ?_, ?_, ?_⟩
  · intro line hline
    obtain ⟨front, marked, back, indent, hdrawn, hexcerpt⟩ := exists_drawn span line
    refine ⟨front, marked, back, indent, hdrawn, ?_⟩
    rw [render_eq, hline, hheading, Option.elim_some, hexcerpt]
  · intro hline
    rw [render_eq, hline, hheading, Option.elim_none, String.append_empty]
  · intro hsource hmessage
    exact Style.seen_of_decorates (decorates_render hsource hmessage span)

/-- A span that ends before it starts, in a line that starts with a tab. -/
theorem render_any_span_reversed :
    lineAt? "\tx = 1;\n" 1 = some ['\t', 'x', ' ', '=', ' ', '1', ';'] ∧
      lineAt? "\tx = 1;\n" 7 = none ∧ Style.Bare "\tx = 1;\n" ∧ Style.Bare "bad" ∧
      (∃ front marked back indent,
        Drawn ⟨⟨1, 3⟩, ⟨0, 1⟩⟩ ['\t', 'x', ' ', '=', ' ', '1', ';'] front marked back indent) ∧
      render "\tx = 1;\n" "bad" ⟨⟨7, 3⟩, ⟨0, 1⟩⟩ false =
        "error: bad\n --> line 7, column 3\n" ∧
      Style.seen (render "\tx = 1;\n" "bad" ⟨⟨1, 3⟩, ⟨0, 1⟩⟩ true) =
        render "\tx = 1;\n" "bad" ⟨⟨1, 3⟩, ⟨0, 1⟩⟩ false := by
  have hline : lineAt? "\tx = 1;\n" 1 = some ['\t', 'x', ' ', '=', ' ', '1', ';'] := by
    decide +kernel
  have hnone : lineAt? "\tx = 1;\n" 7 = none := by decide +kernel
  obtain ⟨-, hdrawn, -, hseen⟩ := render_any_span "\tx = 1;\n" "bad" ⟨⟨1, 3⟩, ⟨0, 1⟩⟩
  obtain ⟨-, -, hmissing, -⟩ := render_any_span "\tx = 1;\n" "bad" ⟨⟨7, 3⟩, ⟨0, 1⟩⟩
  obtain ⟨front, marked, back, indent, hdrawn, -⟩ := hdrawn _ hline
  have hplace : Location.describe ⟨7, 3⟩ = "line 7, column 3" := by decide +kernel
  refine ⟨hline, hnone, by decide, by decide, ⟨front, marked, back, indent, hdrawn⟩, ?_,
    hseen (by decide) (by decide)⟩
  rw [hmissing hnone, hplace]
  rfl

end Diagnostic

end Shc
