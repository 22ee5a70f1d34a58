import Mathlib.Data.List.Forall2
import Shc.Proofs.Lexing.Cover
import Shc.Proofs.Lexing.Quoted

/-!
# Scanning without lines

The lexer takes a text line by line, and remembers from one line to the next whether a block
comment is open.  `scan` goes through the characters of the text instead: a line comment is
dropped up to the line feed, a block comment up to its closing mark, a line end is a blank as
any other, and only a lexeme is looked for on its own line.  It gives the tokens without
numbers for lines and columns, each with the characters in front of it.  Both find the same
tokens at the same places.
-/

namespace Shc

open Token (Kind)

/-! ### Marks -/

/-- A token in a text: the characters in front of it, its own characters and its kind. -/
structure Mark where
  before : List Char
  covered : List Char
  kind : Kind

namespace Mark

/-- The token with more characters in front. -/
def behind (front : List Char) (m : Mark) : Mark :=
  { m with before := front ++ m.before }

theorem behind_behind (front more : List Char) (m : Mark) :
    (m.behind more).behind front = m.behind (front ++ more) := by
  rw [behind, behind, behind, List.append_assoc]

theorem map_behind_behind (front more : List Char) (ms : List Mark) :
    (ms.map (behind more)).map (behind front) = ms.map (behind (front ++ more)) := by
  rw [List.map_map]
  exact List.map_congr_left fun m _ => behind_behind front more m

/-- The token `t` is the one of the mark, in a text that starts at `l`. -/
structure At (l : Location) (t : Token) (m : Mark) : Prop where
  kind_eq : t.kind = m.kind
  start_eq : t.kind ≠ .eos → t.span.start = l.after m.before
  stop_eq : t.isTerminal = false → t.span.stop = l.after (m.before ++ m.covered)

theorem At.behind {l : Location} {front : List Char} {t : Token} {m : Mark}
    (h : At (l.after front) t m) : At l t (m.behind front) := by
  refine ⟨h.kind_eq, fun hkind => ?_, fun hproper => ?_⟩
  · rw [h.start_eq hkind, ← Location.after_append]
    rfl
  · rw [h.stop_eq hproper, ← Location.after_append, ← List.append_assoc]
    rfl

theorem forall₂_behind {l : Location} {front : List Char} {ts : List Token} {ms : List Mark}
    (h : List.Forall₂ (At (l.after front)) ts ms) :
    List.Forall₂ (At l) ts (ms.map (Mark.behind front)) :=
  List.forall₂_map_right_iff.2 (h.imp fun _ _ hat => hat.behind)

end Mark

/-! ### The scanner -/

/-- What follows the opening of a block comment: the comment up to its closing mark, and the
    rest of the text. -/
def closing? : List Char → Option (List Char × List Char)
  | [] => none
  | c :: rest =>
    if c = '*' ∧ rest.head? = some '/' then some ([c, '/'], rest.tail)
    else (closing? rest).map fun found => (c :: found.1, found.2)

theorem closing?_close (rest : List Char) :
    closing? ('*' :: '/' :: rest) = some (['*', '/'], rest) := by
  rw [closing?, if_pos ⟨rfl, rfl⟩]
  rfl

theorem closing?_cons {c : Char} {rest : List Char} (h : c = '*' → rest.head? ≠ some '/') :
    closing? (c :: rest) = (closing? rest).map fun found => (c :: found.1, found.2) := by
  rw [closing?, if_neg fun hclose => h hclose.1 hclose.2]

/-- The end of a comment is found without looking at what follows it. -/
theorem of_closing? {cs body rest : List Char} (h : closing? cs = some (body, rest)) :
    body ≠ [] ∧ cs = body ++ rest ∧ ∀ rest', closing? (body ++ rest') = some (body, rest') := by
  induction cs generalizing body rest with
  | nil => cases h
  | cons c cs ih =>
    by_cases hclose : c = '*' ∧ cs.head? = some '/'
    · obtain ⟨rfl, hhead⟩ := hclose
      obtain ⟨tail, rfl⟩ := List.head?_eq_some_iff.1 hhead
      rw [closing?_close] at h
      obtain ⟨rfl, rfl⟩ := Prod.mk.inj (Option.some.inj h)
      exact ⟨List.cons_ne_nil _ _, rfl, closing?_close⟩
    · rw [closing?_cons fun hc hhead => hclose ⟨hc, hhead⟩] at h
      obtain ⟨⟨body', rest'⟩, hfound, heq⟩ := Option.map_eq_some_iff.1 h
      dsimp only at heq
      obtain ⟨rfl, rfl⟩ := Prod.mk.inj heq
      obtain ⟨hne, rfl, hother⟩ := ih hfound
      obtain ⟨d, tail, rfl⟩ := List.exists_cons_of_ne_nil hne
      refine ⟨List.cons_ne_nil _ _, rfl, fun rest'' => ?_⟩
      have hcons : c = '*' → (d :: tail ++ rest'').head? ≠ some '/' :=
        fun hc hhead => hclose ⟨hc, hhead⟩
      rw [List.cons_append, closing?_cons hcons, hother]
      rfl

/-- The rest of the line that a text starts in. -/
def Text.restOfLine (cs : List Char) : List Char :=
  (Text.lines cs).headD []

/-- The tokens of a text, through the first terminal one. -/
def scan (cs : List Char) : List Mark :=
  match cs with
  | [] => [⟨[], [], .eos⟩]
  | c :: rest =>
    if c = '/' ∧ rest.head? = some '/' then
      (scan (rest.dropWhile (· ≠ '\n'))).map (.behind (c :: rest.takeWhile (· ≠ '\n')))
    else if c = '/' ∧ rest.head? = some '*' then
      match _ : closing? rest.tail with
      | none => [⟨[], c :: rest, .error .unterminatedComment⟩]
      | some (body, after) => (scan after).map (.behind ('/' :: '*' :: body))
    else if Text.isBlank c then (scan rest).map (.behind [c])
    else
      let read := Lexeme.read c (Text.restOfLine rest)
      ⟨[], (c :: rest).take read.2, read.1⟩ ::
        if read.1.isTerminal then []
        else (scan ((c :: rest).drop read.2)).map (.behind ((c :: rest).take read.2))
termination_by cs.length
decreasing_by
  · exact Nat.lt_succ_of_le (List.dropWhile_suffix _).length_le
  · rename_i hfound
    obtain ⟨-, heq, -⟩ := of_closing? hfound
    have hlength := congrArg List.length heq
    rw [List.length_tail, List.length_append] at hlength
    rw [List.length_cons]
    omega
  · exact Nat.lt_succ_self _
  · have hpos := Lexeme.read_snd_pos c (Text.restOfLine rest)
    rw [List.length_drop, List.length_cons]
    omega

/-- A token can start with `c` in front of `rest`. -/
structure Starts (c : Char) (rest : List Char) : Prop where
  blank : Text.isBlank c = false
  slash : c = '/' → rest.head? ≠ some '/' ∧ rest.head? ≠ some '*'

theorem scan_blank {c : Char} (hc : Text.isBlank c = true) (rest : List Char) :
    scan (c :: rest) = (scan rest).map (.behind [c]) := by
  have hne : c ≠ '/' := by
    rintro rfl
    exact absurd hc (by decide)
  rw [scan, if_neg fun h => hne h.1, if_neg fun h => hne h.1, if_pos hc]

theorem scan_line {body tail : List Char} (hbody : '\n' ∉ body) (htail : Lexeme.AtLineEnd tail) :
    scan ('/' :: '/' :: (body ++ tail)) = (scan tail).map (.behind ('/' :: '/' :: body)) := by
  have hline : ∀ c ∈ '/' :: body, decide (c ≠ '\n') = true := by
    intro c hc
    rw [decide_eq_true_eq]
    rintro rfl
    rcases List.mem_cons.1 hc with hc | hc
    · exact absurd hc (by decide)
    · exact hbody hc
  rw [scan, if_pos ⟨rfl, rfl⟩, ← List.cons_append, List.takeWhile_append_of_pos hline,
    List.dropWhile_append_of_pos hline]
  cases htail with
  | stop => simp
  | lf cs => simp
  | crlf cs =>
    rw [scan_blank isBlank_cr, Mark.map_behind_behind]
    simp

theorem scan_open {rest : List Char} (h : closing? rest = none) :
    scan ('/' :: '*' :: rest) = [⟨[], '/' :: '*' :: rest, .error .unterminatedComment⟩] := by
  rw [scan, if_neg (by simp), if_pos ⟨rfl, rfl⟩]
  split
  · rfl
  · rename_i body after hfound
    rw [List.tail_cons, h] at hfound
    cases hfound

theorem scan_block {cs body rest : List Char} (h : closing? cs = some (body, rest)) :
    scan ('/' :: '*' :: cs) = (scan rest).map (.behind ('/' :: '*' :: body)) := by
  rw [scan, if_neg (by simp), if_pos ⟨rfl, rfl⟩]
  split
  · rename_i hfound
    rw [List.tail_cons, h] at hfound
    cases hfound
  · rename_i body' after hfound
    rw [List.tail_cons, h] at hfound
    obtain ⟨rfl, rfl⟩ := Prod.mk.inj (Option.some.inj hfound)
    rfl

theorem scan_start {c : Char} {rest : List Char} (h : Starts c rest) :
    scan (c :: rest) =
      ⟨[], (c :: rest).take (Lexeme.read c (Text.restOfLine rest)).2,
        (Lexeme.read c (Text.restOfLine rest)).1⟩ ::
        if (Lexeme.read c (Text.restOfLine rest)).1.isTerminal then []
        else (scan ((c :: rest).drop (Lexeme.read c (Text.restOfLine rest)).2)).map
          (.behind ((c :: rest).take (Lexeme.read c (Text.restOfLine rest)).2)) := by
  rw [scan, if_neg fun hline => (h.slash hline.1).1 hline.2,
    if_neg fun hblock => (h.slash hblock.1).2 hblock.2, if_neg (by rw [h.blank]; decide)]

/-! ### A text in front of a cursor -/

/-- The text in front of a cursor: the rest of a line and the lines behind it. -/
structure Ahead (text rest : List Char) (later : List (List Char)) : Prop where
  rest_eq : Text.restOfLine text = rest
  later_eq : (Text.lines text).tail = later

namespace Ahead

variable {text rest : List Char} {later : List (List Char)}

theorem of_lines {next : List Char} (h : Text.lines text = next :: later) :
    Ahead text next later := by
  refine ⟨?_, ?_⟩
  · rw [Text.restOfLine, h]
    rfl
  · rw [h]
    rfl

/-- A text starts with the first character of its line, or with a line end. -/
theorem cases_text (c : Char) (text : List Char) :
    LineEnd (c :: text) (Text.lines (c :: text)).tail ∧ Text.restOfLine (c :: text) = [] ∨
      c ≠ '\n' ∧ Text.restOfLine (c :: text) = c :: Text.restOfLine text ∧
        (Text.lines (c :: text)).tail = (Text.lines text).tail := by
  by_cases hlf : c = '\n'
  · subst hlf
    exact .inl ⟨.lf text, rfl⟩
  · by_cases hcr : c = '\r' ∧ text.head? = some '\n'
    · obtain ⟨rfl, hhead⟩ := hcr
      obtain ⟨text, rfl⟩ := List.head?_eq_some_iff.1 hhead
      exact .inl ⟨.crlf text, rfl⟩
    · have hlines : Text.lines (c :: text) =
          (c :: Text.restOfLine text) :: (Text.lines text).tail :=
        Text.linesBy_cons hlf hcr
      right
      rw [Text.restOfLine, hlines]
      exact ⟨hlf, rfl, rfl⟩

theorem lineEnd (h : Ahead text [] later) : LineEnd text later := by
  obtain ⟨hrest, rfl⟩ := h
  cases text with
  | nil => exact .stop
  | cons c text =>
    rcases cases_text c text with ⟨hend, -⟩ | ⟨-, hcons, -⟩
    · exact hend
    · rw [hcons] at hrest
      cases hrest

theorem uncons {c : Char} (h : Ahead text (c :: rest) later) :
    ∃ text', text = c :: text' ∧ c ≠ '\n' ∧ Ahead text' rest later := by
  obtain ⟨hrest, rfl⟩ := h
  cases text with
  | nil => cases hrest
  | cons d text =>
    rcases cases_text d text with ⟨-, hnil⟩ | ⟨hd, hcons, htail⟩
    · rw [hnil] at hrest
      cases hrest
    · rw [hcons] at hrest
      obtain ⟨rfl, hline⟩ := List.cons.inj hrest
      exact ⟨text, rfl, hd, hline, htail.symm⟩

theorem split {front : List Char} (h : Ahead text (front ++ rest) later) :
    ∃ text', text = front ++ text' ∧ '\n' ∉ front ∧ Ahead text' rest later := by
  induction front generalizing text with
  | nil => exact ⟨text, rfl, List.not_mem_nil, h⟩
  | cons c front ih =>
    obtain ⟨text, rfl, hc, h⟩ := uncons h
    obtain ⟨text, rfl, hfront, h⟩ := ih h
    refine ⟨text, rfl, fun hmem => ?_, h⟩
    rcases List.mem_cons.1 hmem with hmem | hmem
    · exact hc hmem.symm
    · exact hfront hmem

/-- What the text starts with is on the line, unless it ends the line. -/
theorem head?_ne (h : Ahead text rest later) {d : Char} (hd : Text.isBlank d = false)
    (hrest : rest.head? ≠ some d) : text.head? ≠ some d := by
  cases rest with
  | nil =>
    rintro hhead
    obtain ⟨text, rfl⟩ := List.head?_eq_some_iff.1 hhead
    generalize hall : d :: text = all at h
    have hend := h.lineEnd
    cases hend with
    | stop => cases hall
    | lf cs =>
      obtain ⟨rfl, -⟩ := List.cons.inj hall
      rw [isBlank_lf] at hd
      cases hd
    | crlf cs =>
      obtain ⟨rfl, -⟩ := List.cons.inj hall
      rw [isBlank_cr] at hd
      cases hd
  | cons c rest =>
    obtain ⟨text, rfl, -, -⟩ := h.uncons
    exact hrest

end Ahead

/-! ### Both find the same tokens -/

/-- The tokens `ts` come next in a text that starts at `l`, where the gap in front of them is
    already open. -/
def Gap.Follows (l : Location) (text : List Char) (ts : List Token) : Gap → Prop
  | .space => List.Forall₂ (Mark.At l) ts (scan text)
  | .comment start =>
    match closing? text with
    | none => ∃ stop, ts = [⟨.error .unterminatedComment, ⟨start, stop⟩⟩]
    | some found => List.Forall₂ (Mark.At l) ts ((scan found.2).map (.behind found.1))

namespace Gap.Follows

variable {l start : Location} {text : List Char} {ts : List Token}

theorem blank {c : Char} (h : Follows (l.after [c]) text ts .space) (hc : Text.isBlank c = true) :
    Follows l (c :: text) ts .space := by
  rw [Follows, scan_blank hc]
  exact Mark.forall₂_behind h

theorem line {body : List Char} (h : Follows (l.after ('/' :: '/' :: body)) text ts .space)
    (hbody : '\n' ∉ body) (htext : Lexeme.AtLineEnd text) :
    Follows l ('/' :: '/' :: (body ++ text)) ts .space := by
  rw [Follows, scan_line hbody htext]
  exact Mark.forall₂_behind h

theorem opening (h : Follows (l.after ['/', '*']) text ts (.comment l)) :
    Follows l ('/' :: '*' :: text) ts .space := by
  cases hclosing : closing? text with
  | none =>
    simp only [Follows, hclosing] at h
    obtain ⟨stop, rfl⟩ := h
    rw [Follows, scan_open hclosing]
    exact .cons ⟨rfl, fun _ => rfl, fun hproper => by cases hproper⟩ .nil
  | some found =>
    simp only [Follows, hclosing] at h
    have hbehind := Mark.forall₂_behind h
    rw [Mark.map_behind_behind] at hbehind
    rw [Follows, scan_block hclosing]
    exact hbehind

theorem closing (h : Follows (l.after ['*', '/']) text ts .space) :
    Follows l ('*' :: '/' :: text) ts (.comment start) := by
  simp only [Follows, closing?_close]
  exact Mark.forall₂_behind h

theorem inside {c : Char} (h : Follows (l.after [c]) text ts (.comment start))
    (hc : c = '*' → text.head? ≠ some '/') : Follows l (c :: text) ts (.comment start) := by
  cases hclosing : closing? text with
  | none =>
    simp only [Follows, hclosing] at h
    simp only [Follows, closing?_cons hc, hclosing, Option.map_none]
    exact h
  | some found =>
    simp only [Follows, hclosing] at h
    have hbehind := Mark.forall₂_behind h
    rw [Mark.map_behind_behind] at hbehind
    simp only [Follows, closing?_cons hc, hclosing, Option.map_some]
    exact hbehind

/-- A blank that closes no comment. -/
theorem skip {c : Char} {gap : Gap} (h : Follows (l.after [c]) text ts gap)
    (hblank : Text.isBlank c = true) (hc : c ≠ '*') : Follows l (c :: text) ts gap := by
  cases gap with
  | space => exact h.blank hblank
  | comment start => exact h.inside fun hstar => absurd hstar hc

end Gap.Follows

theorem Text.eq_nil_of_lines {cs : List Char} (h : lines cs = []) : cs = [] := by
  by_contra hne
  obtain ⟨line, tail, later, -, hlines, -⟩ := exists_first_line hne
  rw [h] at hlines
  cases hlines

namespace Cursor

/-- The tokens from the first one on that is found. -/
def tokensFrom (found : Token × Cursor) : List Token :=
  if found.1.isTerminal then [found.1] else found.1 :: found.2.tokens

theorem tokensFrom_terminal {found : Token × Cursor} (h : found.1.isTerminal = true) :
    tokensFrom found = [found.1] :=
  if_pos h

theorem tokensFrom_proper {found : Token × Cursor} (h : found.1.isTerminal = false) :
    tokensFrom found = found.1 :: found.2.tokens :=
  if_neg (by rw [h]; decide)

theorem tokens_eq_tokensFrom (c : Cursor) : c.tokens = tokensFrom c.next := by
  rw [tokens]
  rfl

/-- It does not matter where on the line the search starts, if it ends in the same way. -/
theorem nextIn_congr {failure : Option ReadError} {later : List (List Char)}
    {line column column' : Nat} {rest rest' : List Char} {gap gap' : Gap}
    (hcross : Gap.cross line gap column rest = Gap.cross line gap' column' rest')
    (hlength : column + rest.length = column' + rest'.length) :
    nextIn failure later line column rest gap = nextIn failure later line column' rest' gap' := by
  cases later with
  | nil => rw [nextIn, nextIn, hcross, hlength]
  | cons next later => rw [nextIn, nextIn, hcross]

section

variable {failure : Option ReadError} {later : List (List Char)} {line column : Nat}
  {rest : List Char} {start : Location} {c : Char}

theorem nextIn_lineComment {body : List Char} :
    nextIn failure later line column ('/' :: '/' :: body) .space =
      nextIn failure later line (column + (body.length + 2)) [] .space :=
  nextIn_congr rfl rfl

theorem nextIn_opening :
    nextIn failure later line column ('/' :: '*' :: rest) .space =
      nextIn failure later line (column + 2) rest (.comment ⟨line, column + 1⟩) :=
  nextIn_congr rfl (by simp only [List.length_cons]; omega)

theorem nextIn_closing :
    nextIn failure later line column ('*' :: '/' :: rest) (.comment start) =
      nextIn failure later line (column + 2) rest .space :=
  nextIn_congr rfl (by simp only [List.length_cons]; omega)

theorem nextIn_inside (hopen : c = '*' → rest.head? ≠ some '/') :
    nextIn failure later line column (c :: rest) (.comment start) =
      nextIn failure later line (column + 1) rest (.comment start) := by
  apply nextIn_congr
  · rw [Gap.cross]
    rintro rest' hc rfl
    exact hopen hc rfl
  · rw [List.length_cons, Nat.add_right_comm, Nat.add_assoc]

variable (hslash : c = '/' → rest.head? ≠ some '/' ∧ rest.head? ≠ some '*')
include hslash

theorem nextIn_blank (hblank : Text.isBlank c = true) :
    nextIn failure later line column (c :: rest) .space =
      nextIn failure later line (column + 1) rest .space := by
  apply nextIn_congr
  · rw [Gap.cross_space hslash, if_pos hblank]
  · rw [List.length_cons, Nat.add_right_comm, Nat.add_assoc]

theorem nextIn_start (hblank : Text.isBlank c = false) :
    nextIn failure later line column (c :: rest) .space =
      take ⟨line, column, c :: rest, later, failure⟩ c rest := by
  rw [nextIn, Gap.cross_space hslash, if_neg (by rw [hblank]; decide)]

end

/-- At the end of the text there is no token, or a comment that is still open. -/
theorem follows_terminal (l : Location) {c : Cursor} (hfailure : c.failure = none) (gap : Gap) :
    Gap.Follows l [] (tokensFrom (c.terminal gap, c)) gap := by
  rw [tokensFrom_terminal (isTerminal_terminal c gap)]
  cases gap with
  | space =>
    rw [terminal_space hfailure, Gap.Follows, scan]
    exact .cons ⟨rfl, fun hkind => absurd rfl hkind, fun hproper => by cases hproper⟩ .nil
  | comment start =>
    rw [terminal_comment hfailure]
    exact ⟨_, rfl⟩

section

variable {line column : Nat} {text rest : List Char} {later : List (List Char)} {gap : Gap}

theorem follows_lineEnd (h : Ahead text [] later)
    (hnext : ∀ text' next later', later = next :: later' → Ahead text' next later' →
      Gap.Follows ⟨line + 1, 1⟩ text' (tokensFrom (nextIn none later' (line + 1) 0 next gap)) gap) :
    Gap.Follows ⟨line, column + 1⟩ text
      (tokensFrom (nextIn none later line column [] gap)) gap := by
  -- the text behind the line end is that of the lines to come
  have hbehind : ∀ cs, later = Text.lines cs → Gap.Follows ⟨line + 1, 1⟩ cs
      (tokensFrom (nextIn none later line column [] gap)) gap := by
    intro cs hcs
    cases later with
    | nil =>
      rw [Text.eq_nil_of_lines hcs.symm, nextIn, Gap.cross]
      exact follows_terminal _ rfl gap
    | cons next later =>
      rw [nextIn, Gap.cross]
      exact hnext cs next later rfl (.of_lines hcs.symm)
  cases h.lineEnd with
  | stop =>
    rw [nextIn, Gap.cross]
    exact follows_terminal _ rfl gap
  | lf cs =>
    refine Gap.Follows.skip ?_ isBlank_lf (by decide)
    exact hbehind cs rfl
  | crlf cs =>
    refine Gap.Follows.skip (Gap.Follows.skip ?_ isBlank_lf (by decide)) isBlank_cr (by decide)
    exact hbehind cs rfl

theorem follows_take {c : Char} (hpos : 1 ≤ line) (h : Ahead (c :: text) (c :: rest) later)
    (hstarts : Starts c text)
    (hbehind : ∀ front more text', front ≠ [] → c :: rest = front ++ more →
      Ahead text' more later →
      Gap.Follows ⟨line, column + front.length + 1⟩ text'
        (tokens ⟨line, column + front.length, more, later, none⟩) .space) :
    Gap.Follows ⟨line, column + 1⟩ (c :: text)
      (tokensFrom (take ⟨line, column, c :: rest, later, none⟩ c rest)) .space := by
  have hrest : Text.restOfLine text = rest := by
    obtain ⟨text', htext, -, hrest⟩ := h.uncons
    obtain ⟨-, rfl⟩ := List.cons.inj htext
    exact hrest.rest_eq
  have hloc : loc ⟨line, column, c :: rest, later, none⟩ = ⟨line, column + 1⟩ := loc_eq hpos
  rw [Gap.Follows, scan_start hstarts, hrest]
  cases hterminal : (Lexeme.read c rest).1.isTerminal with
  | true =>
    have htake : (take ⟨line, column, c :: rest, later, none⟩ c rest).1.isTerminal = true :=
      hterminal
    rw [tokensFrom_terminal htake, if_pos rfl]
    refine .cons ⟨rfl, fun _ => hloc, fun hproper => ?_⟩ .nil
    exact absurd (hproper.symm.trans htake) (by decide)
  | false =>
    have htake : (take ⟨line, column, c :: rest, later, none⟩ c rest).1.isTerminal = false :=
      hterminal
    -- the lexeme is the front part of the line, as long as it is wide
    obtain ⟨front, more, hfront, hwidth⟩ : ∃ front more, c :: rest = front ++ more ∧
        front.length = (Lexeme.read c rest).2 := by
      refine ⟨_, _, (List.take_append_drop (Lexeme.read c rest).2 _).symm, ?_⟩
      rw [List.length_take, List.length_cons]
      exact Nat.min_eq_left (Lexeme.read_snd_le c rest)
    have hne : front ≠ [] := by
      rintro rfl
      exact absurd (Lexeme.read_snd_pos c rest) (by rw [← hwidth]; decide)
    rw [hfront] at h
    obtain ⟨text', htext, hline, hmore⟩ := h.split
    have hafter : Location.after ⟨line, column + 1⟩ front = ⟨line, column + front.length + 1⟩ := by
      rw [Location.after_line _ hline, Nat.add_right_comm]
    have hfollows := hbehind front more text' hne hfront hmore
    rw [← hafter] at hfollows
    rw [tokensFrom_proper htake, if_neg (by decide), ← hwidth, htext, List.take_left,
      List.drop_left]
    have hskip : (take ⟨line, column, c :: rest, later, none⟩ c rest).2 =
        ⟨line, column + front.length, more, later, none⟩ := by
      rw [take, skip, ← hwidth]
      dsimp only
      rw [hfront, List.drop_left]
    rw [hskip]
    refine .cons ⟨rfl, fun _ => hloc, fun _ => ?_⟩ (Mark.forall₂_behind hfollows)
    have hstop : (take ⟨line, column, c :: rest, later, none⟩ c rest).1.span.stop =
        (take ⟨line, column, c :: rest, later, none⟩ c rest).2.loc := rfl
    rw [hstop, hskip, loc_eq hpos, List.nil_append, hafter]

/-- On the rest of a line, as far as it is shorter than `width`, the lexer and the scanner
    find the same. -/
def Agree (line : Nat) (later : List (List Char)) (width : Nat) : Prop :=
  ∀ (column : Nat) (rest text : List Char) (gap : Gap), rest.length < width →
    Ahead text rest later →
    Gap.Follows ⟨line, column + 1⟩ text (tokensFrom (nextIn none later line column rest gap)) gap

theorem follows_lineComment {body : List Char} (h : Ahead text ('/' :: '/' :: body) later)
    (hstep : Agree line later (body.length + 2)) :
    Gap.Follows ⟨line, column + 1⟩ text
      (tokensFrom (nextIn none later line column ('/' :: '/' :: body) .space)) .space := by
  have hsplit : Ahead text (('/' :: '/' :: body) ++ []) later := by rwa [List.append_nil]
  obtain ⟨tail, rfl, hline, htail⟩ := hsplit.split
  have hbody : '\n' ∉ body :=
    fun hmem => hline (List.mem_cons_of_mem _ (List.mem_cons_of_mem _ hmem))
  refine Gap.Follows.line ?_ hbody htail.lineEnd.atLineEnd
  have hend := hstep (column + (body.length + 2)) [] tail .space (Nat.succ_pos _) htail
  rw [nextIn_lineComment, Location.after_line _ hline, List.length_cons, List.length_cons,
    Nat.add_right_comm]
  exact hend

theorem follows_space {c : Char} (hpos : 1 ≤ line) (h : Ahead text (c :: rest) later)
    (hstep : Agree line later (c :: rest).length) :
    Gap.Follows ⟨line, column + 1⟩ text
      (tokensFrom (nextIn none later line column (c :: rest) .space)) .space := by
  obtain ⟨text, rfl, hc, hrest⟩ := h.uncons
  by_cases hline : c = '/' ∧ rest.head? = some '/'
  · obtain ⟨rfl, hhead⟩ := hline
    obtain ⟨body, rfl⟩ := List.head?_eq_some_iff.1 hhead
    exact follows_lineComment h hstep
  by_cases hblock : c = '/' ∧ rest.head? = some '*'
  · obtain ⟨rfl, hhead⟩ := hblock
    obtain ⟨rest, rfl⟩ := List.head?_eq_some_iff.1 hhead
    obtain ⟨text, rfl, -, hrest⟩ := hrest.uncons
    rw [nextIn_opening]
    refine Gap.Follows.opening ?_
    rw [Location.after_two (by decide) (by decide)]
    exact hstep _ _ _ _ (by simp only [List.length_cons]; omega) hrest
  have hslash : c = '/' → rest.head? ≠ some '/' ∧ rest.head? ≠ some '*' :=
    fun hc => ⟨fun hhead => hline ⟨hc, hhead⟩, fun hhead => hblock ⟨hc, hhead⟩⟩
  cases hblank : Text.isBlank c with
  | true =>
    rw [nextIn_blank hslash hblank]
    refine Gap.Follows.blank ?_ hblank
    rw [Location.after_one hc]
    exact hstep _ _ _ _ (Nat.lt_succ_self _) hrest
  | false =>
    have hstarts : Starts c text := by
      refine ⟨hblank, fun hc => ⟨?_, ?_⟩⟩
      · exact hrest.head?_ne (by decide) (hslash hc).1
      · exact hrest.head?_ne (by decide) (hslash hc).2
    rw [nextIn_start hslash hblank]
    refine follows_take hpos h hstarts fun front more text' hne hfront hmore => ?_
    rw [tokens_eq_tokensFrom]
    refine hstep _ _ _ _ ?_ hmore
    rw [hfront, List.length_append]
    exact Nat.lt_add_of_pos_left (List.length_pos_iff.2 hne)

theorem follows_comment {c : Char} {start : Location} (h : Ahead text (c :: rest) later)
    (hstep : Agree line later (c :: rest).length) :
    Gap.Follows ⟨line, column + 1⟩ text
      (tokensFrom (nextIn none later line column (c :: rest) (.comment start)))
      (.comment start) := by
  obtain ⟨text, rfl, hc, hrest⟩ := h.uncons
  by_cases hclose : c = '*' ∧ rest.head? = some '/'
  · obtain ⟨rfl, hhead⟩ := hclose
    obtain ⟨rest, rfl⟩ := List.head?_eq_some_iff.1 hhead
    obtain ⟨text, rfl, -, hrest⟩ := hrest.uncons
    rw [nextIn_closing]
    refine Gap.Follows.closing ?_
    rw [Location.after_two (by decide) (by decide)]
    exact hstep _ _ _ _ (by simp only [List.length_cons]; omega) hrest
  · have hopen : c = '*' → rest.head? ≠ some '/' := fun hc hhead => hclose ⟨hc, hhead⟩
    rw [nextIn_inside hopen]
    refine Gap.Follows.inside ?_ fun hc => hrest.head?_ne (by decide) (hopen hc)
    rw [Location.after_one hc]
    exact hstep _ _ _ _ (Nat.lt_succ_self _) hrest

/-- From any place on the lexer finds what the scanner finds in the text that is ahead. -/
theorem follows_nextIn (hpos : 1 ≤ line) (h : Ahead text rest later) :
    Gap.Follows ⟨line, column + 1⟩ text
      (tokensFrom (nextIn none later line column rest gap)) gap := by
  induction hsize : size ⟨line, column, rest, later, none⟩ using Nat.strongRecOn
    generalizing line column text rest later gap with
  | _ n ih =>
    cases rest with
    | nil =>
      refine follows_lineEnd h fun text' next later' hlater hnext => ?_
      subst hlater
      refine ih _ ?_ (Nat.le_add_left ..) hnext rfl
      rw [← hsize]
      simp only [size, List.length_nil, List.map_cons, List.foldr_cons]
      omega
    | cons c rest =>
      have hstep : Agree line later (c :: rest).length := by
        intro column' rest' text' gap' hlt hahead
        refine ih _ ?_ hpos hahead rfl
        rw [← hsize]
        exact Nat.add_lt_add_right hlt _
      cases gap with
      | space => exact follows_space hpos h hstep
      | comment start => exact follows_comment h hstep

end

end Cursor

/-- The tokens of a text are those that the scanner finds, at the same places. -/
theorem Source.forall₂_scan (cs : List Char) :
    List.Forall₂ (Mark.At ⟨1, 1⟩) (Source.ofChars cs).tokens (scan cs) := by
  have hahead : Ahead cs ((Text.lines cs).headD []) (Text.lines cs).tail := ⟨rfl, rfl⟩
  have hfollows : Gap.Follows ⟨1, 0 + 1⟩ cs (Cursor.tokensFrom (Cursor.nextIn none
      (Text.lines cs).tail 1 0 ((Text.lines cs).headD []) .space)) .space :=
    Cursor.follows_nextIn (Nat.le_refl 1) hahead
  rw [tokens_ofChars, Cursor.tokens_eq_tokensFrom]
  exact hfollows

theorem Source.kinds_scan (cs : List Char) :
    (Source.ofChars cs).tokens.map Token.kind = (scan cs).map Mark.kind := by
  rw [← List.forall₂_eq_eq_eq, List.forall₂_map_left_iff, List.forall₂_map_right_iff]
  exact (forall₂_scan cs).imp fun _ _ h => h.kind_eq

end Shc
