import Shc.Proofs.Lexing.Language

/-!
# The tokens cover the text

Every character of a text belongs to one token or to the gap in front of one.
`Filler gap rest` says what a gap may hold: blanks, line ends and comments, each of
them ended.  `Covers l text ts last` takes the whole text from the place `l` on apart
into gaps and lexemes, with the tokens `ts` at their places and `last` at the end.

The lexer goes through the lines of the text, not through the text.  `LineEnd` relates
the two: what follows the current line in the text, and the lines that are still to
come.
-/

namespace Shc

open Token (Kind)

/-! ### Places -/

namespace Location

/-- The place behind some characters, the first of which stands at `l`. -/
def after (l : Location) : List Char → Location
  | [] => l
  | c :: cs => after (if c = '\n' then ⟨l.line + 1, 1⟩ else ⟨l.line, l.column + 1⟩) cs

/-- The order in which places come in a text. -/
instance : LE Location :=
  ⟨fun a b => a.line < b.line ∨ a.line = b.line ∧ a.column ≤ b.column⟩

theorem le_iff {a b : Location} :
    a ≤ b ↔ a.line < b.line ∨ a.line = b.line ∧ a.column ≤ b.column :=
  Iff.rfl

theorem le_refl (a : Location) : a ≤ a :=
  .inr ⟨rfl, Nat.le_refl _⟩

theorem le_trans {a b c : Location} (h : a ≤ b) (h' : b ≤ c) : a ≤ c := by
  rw [le_iff] at h h' ⊢
  omega

theorem after_append (l : Location) (cs ds : List Char) :
    l.after (cs ++ ds) = (l.after cs).after ds := by
  induction cs generalizing l with
  | nil => rfl
  | cons c cs ih => exact ih _

theorem le_after (l : Location) (cs : List Char) : l ≤ l.after cs := by
  induction cs generalizing l with
  | nil => exact le_refl l
  | cons c cs ih =>
    refine le_trans ?_ (ih _)
    rw [le_iff]
    split_ifs <;> simp

theorem after_line (l : Location) {cs : List Char} (h : '\n' ∉ cs) :
    l.after cs = ⟨l.line, l.column + cs.length⟩ := by
  induction cs generalizing l with
  | nil => rfl
  | cons c cs ih =>
    simp only [List.mem_cons, not_or] at h
    rw [after, if_neg (Ne.symm h.1), ih _ h.2]
    simp only [List.length_cons, mk.injEq, true_and]
    omega

end Location

/-! ### Gaps -/

/-- A block comment is not closed by these characters. -/
def Unclosed (body : List Char) : Prop :=
  ¬ ['*', '/'] <:+: body

/-- The characters `gap` in front of `rest` belong to no token. -/
inductive Filler : List Char → List Char → Prop where
  | nil {rest : List Char} : Filler [] rest
  | blank {c : Char} {gap rest : List Char} :
      Text.isBlank c = true → Filler gap rest → Filler (c :: gap) rest
  | line {body gap rest : List Char} : '\n' ∉ body → Lexeme.AtLineEnd (gap ++ rest) →
      Filler gap rest → Filler ('/' :: '/' :: (body ++ gap)) rest
  | block {body gap rest : List Char} : Unclosed body → Filler gap rest →
      Filler ('/' :: '*' :: (body ++ '*' :: '/' :: gap)) rest

theorem Filler.append {gap gap' rest : List Char} (h : Filler gap (gap' ++ rest))
    (h' : Filler gap' rest) : Filler (gap ++ gap') rest := by
  generalize hall : gap' ++ rest = all at h
  induction h with
  | nil => exact h'
  | blank hc _ ih => exact .blank hc (ih hall)
  | line hbody hend _ ih =>
    subst hall
    have hline := Filler.line hbody (by rwa [List.append_assoc]) (ih rfl)
    simpa using hline
  | block hbody _ ih =>
    have hblock := Filler.block hbody (ih hall)
    simpa using hblock

/-! ### Coverings -/

/-- No token starts here: a comment is never closed or there is no lexeme. -/
inductive Fault : List Char → Prop where
  | comment {body : List Char} : Unclosed body → Fault ('/' :: '*' :: body)
  | token {text : List Char} : Lexeme.Missing text → Fault text

/-- The text from the place `l` on consists of the tokens `ts`, each behind a gap, and
    ends in the terminal token. -/
inductive Covers : Location → List Char → List Token → Token → Prop where
  | token {l : Location} {gap lexeme rest : List Char} {kind : Kind} {ts : List Token}
      {last : Token} : Filler gap (lexeme ++ rest) → Lexeme.Longest lexeme rest kind →
      Covers (l.after (gap ++ lexeme)) rest ts last →
      Covers l (gap ++ (lexeme ++ rest))
        (⟨kind, ⟨l.after gap, l.after (gap ++ lexeme)⟩⟩ :: ts) last
  | eos {l stop : Location} {gap : List Char} : Filler gap [] → l ≤ stop →
      Covers l gap [] ⟨.eos, .point stop⟩
  | error {l stop : Location} {gap bad : List Char} {e : LexError} : Filler gap bad → Fault bad →
      Covers l (gap ++ bad) [] ⟨.error e, ⟨l.after gap, stop⟩⟩

namespace Covers

variable {l : Location} {text : List Char} {ts : List Token} {last : Token}

theorem isTerminal_last (h : Covers l text ts last) : last.isTerminal = true := by
  induction h with
  | token _ _ _ ih => exact ih
  | eos _ _ => rfl
  | error _ _ => rfl

theorem isTerminal_of_mem (h : Covers l text ts last) : ∀ t ∈ ts, t.isTerminal = false := by
  induction h with
  | token _ hlexeme _ ih =>
    exact List.forall_mem_cons.2 ⟨Lexeme.isTerminal_of_spelling hlexeme.spelling, ih⟩
  | eos _ _ => simp
  | error _ _ => simp

/-- Each token stands on one line and is not empty. -/
theorem oneLine (h : Covers l text ts last) :
    ∀ t ∈ ts, t.span.start.line = t.span.stop.line ∧ t.span.start.column < t.span.stop.column := by
  induction h with
  | token _ hlexeme _ ih =>
    refine List.forall_mem_cons.2 ⟨?_, ih⟩
    rw [Location.after_append, Location.after_line _ hlexeme.spelling.onLine.ne_lf]
    have hpos := List.length_pos_iff.2 hlexeme.spelling.ne_nil
    exact ⟨rfl, by simpa using hpos⟩
  | eos _ _ => simp
  | error _ _ => simp

theorem le_start (h : Covers l text ts last) : ∀ t ∈ ts ++ [last], l ≤ t.span.start := by
  induction h with
  | @token l gap lexeme rest kind ts last _ _ _ ih =>
    rw [List.cons_append]
    refine List.forall_mem_cons.2 ⟨Location.le_after l gap, fun t ht => ?_⟩
    exact Location.le_trans (Location.le_after l _) (ih t ht)
  | eos _ hle => simpa [Span.point] using hle
  | error _ _ => simpa using Location.le_after _ _

/-- Each token ends before the next one starts. -/
theorem pairwise (h : Covers l text ts last) :
    (ts ++ [last]).Pairwise fun t u => t.span.stop ≤ u.span.start := by
  induction h with
  | token _ _ hrest ih => exact List.pairwise_cons.2 ⟨hrest.le_start, ih⟩
  | eos _ _ => simp
  | error _ _ => simp

end Covers

/-! ### Crossing a gap -/

theorem unclosed_nil : Unclosed [] := by
  simp [Unclosed]

theorem unclosed_concat {body : List Char} {c : Char} (h : Unclosed body)
    (hc : body.getLast? = some '*' → c ≠ '/') : Unclosed (body ++ [c]) := by
  rintro ⟨before, after, heq⟩
  rcases List.eq_nil_or_concat after with rfl | ⟨after, d, rfl⟩
  · have hsplit : (before ++ ['*']) ++ ['/'] = body ++ [c] := by simpa using heq
    obtain ⟨hbody, hlast⟩ := List.append_inj' hsplit rfl
    refine hc ?_ (List.singleton_inj.1 hlast).symm
    rw [← hbody, List.getLast?_concat]
  · rw [List.concat_eq_append, ← List.append_assoc] at heq
    obtain ⟨hbody, -⟩ := List.append_inj' heq rfl
    exact h ⟨before, after, hbody⟩

/-- On the way from `l` through the text, where the gap that started at `l` is in the
    state `gap`: the place that was reached and the text that is left. -/
inductive Gap.Reached (l : Location) (text : List Char) :
    Gap → Location → List Char → Prop where
  | space {gap rest : List Char} : text = gap ++ rest → Filler gap rest →
      Reached l text .space (l.after gap) rest
  | comment {gap body rest : List Char} : text = gap ++ '/' :: '*' :: (body ++ rest) →
      Filler gap ('/' :: '*' :: (body ++ rest)) → Unclosed body →
      (body.getLast? = some '*' → rest.head? ≠ some '/') →
      Reached l text (.comment (l.after gap)) (l.after (gap ++ '/' :: '*' :: body)) rest

namespace Gap.Reached

variable {l p start : Location} {text rest : List Char}

theorem step {gap : List Char} {more : List Char} (h : Reached l text .space p (gap ++ more))
    (hgap : Filler gap more) : Reached l text .space (p.after gap) more := by
  cases h with
  | @space before _ htext hbefore =>
    rw [← Location.after_append]
    exact .space (by rw [htext, List.append_assoc]) (hbefore.append hgap)

theorem blank {c : Char} (h : Reached l text .space p (c :: rest)) (hc : Text.isBlank c = true) :
    Reached l text .space (p.after [c]) rest := by
  rw [← List.singleton_append] at h
  exact h.step (.blank hc .nil)

theorem opening (h : Reached l text .space p ('/' :: '*' :: rest)) :
    Reached l text (.comment p) (p.after ['/', '*']) rest := by
  cases h with
  | @space before _ htext hbefore =>
    rw [← Location.after_append]
    exact .comment htext hbefore unclosed_nil (by simp)

theorem closing (h : Reached l text (.comment start) p ('*' :: '/' :: rest)) :
    Reached l text .space (p.after ['*', '/']) rest := by
  cases h with
  | @comment gap body _ htext hgap hbody _ =>
    have hblock : Filler ('/' :: '*' :: (body ++ ['*', '/'])) rest := .block hbody .nil
    have hall : gap ++ '/' :: '*' :: (body ++ '*' :: '/' :: rest) =
        gap ++ (('/' :: '*' :: (body ++ ['*', '/'])) ++ rest) := by simp
    rw [hall] at htext
    have hreached :
        Reached l text .space (l.after gap) (('/' :: '*' :: (body ++ ['*', '/'])) ++ rest) :=
      .space htext (by simpa using hgap)
    have hnext := hreached.step hblock
    rw [← Location.after_append] at hnext ⊢
    simpa using hnext

theorem inside {c : Char} (h : Reached l text (.comment start) p (c :: rest))
    (hc : c = '*' → rest.head? ≠ some '/') :
    Reached l text (.comment start) (p.after [c]) rest := by
  cases h with
  | @comment gap body _ htext hgap hbody happart =>
    have hall : body ++ c :: rest = (body ++ [c]) ++ rest := by simp
    rw [hall] at htext hgap
    have hbody' : Unclosed (body ++ [c]) :=
      unclosed_concat hbody fun hlast hslash => happart hlast (by rw [hslash]; rfl)
    have hnext := Reached.comment (l := l) htext hgap hbody' (by
      rw [List.getLast?_concat, Option.some.injEq]
      exact hc)
    rw [← Location.after_append]
    simpa using hnext

end Gap.Reached

section

variable {l : Location} {text tail : List Char}

theorem Location.after_one {line column : Nat} {c : Char} (hc : c ≠ '\n') :
    after ⟨line, column⟩ [c] = ⟨line, column + 1⟩ :=
  after_line _ (by simpa using hc.symm)

theorem Location.after_two {line column : Nat} {c d : Char} (hc : c ≠ '\n') (hd : d ≠ '\n') :
    after ⟨line, column⟩ [c, d] = ⟨line, column + 2⟩ :=
  after_line _ (by simp [hc.symm, hd.symm])

theorem head?_of_atLineEnd (htail : Lexeme.AtLineEnd tail) : tail.head? ≠ some '/' := by
  cases htail <;> simp

/-- The search for a token on the rest `cs` of a line that the text goes on with. -/
theorem Gap.reached_of_cross {line column : Nat} {gap : Gap} {cs : List Char}
    (htail : Lexeme.AtLineEnd tail) (hline : '\n' ∉ cs)
    (h : Reached l text gap ⟨line, column + 1⟩ (cs ++ tail)) :
    match cross line gap column cs with
    | .token column' c rest => Reached l text .space ⟨line, column' + 1⟩ (c :: rest ++ tail)
    | .lineEnd gap' => ∃ column', Reached l text gap' ⟨line, column'⟩ tail := by
  fun_induction cross line gap column cs with
  | case1 gap column => exact ⟨_, h⟩
  | case2 column body =>
    -- a comment to the end of the line takes the rest of the line
    simp only [List.mem_cons, not_or] at hline
    have hcomment : Filler ('/' :: '/' :: body) tail := by
      simpa using @Filler.line body [] tail hline.2.2 htail .nil
    have hnext := h.step hcomment
    rw [Location.after_line _ (by simp [hline.2.2])] at hnext
    exact ⟨_, hnext⟩
  | case3 column rest ih =>
    simp only [List.mem_cons, not_or] at hline
    have hnext := h.opening
    rw [Location.after_two (by decide) (by decide)] at hnext
    exact ih hline.2.2 hnext
  | case4 column c rest _ _ hblank ih =>
    simp only [List.mem_cons, not_or] at hline
    have hnext := h.blank hblank
    rw [Location.after_one (Ne.symm hline.1)] at hnext
    exact ih hline.2 hnext
  | case5 column c rest => exact h
  | case6 start column rest ih =>
    simp only [List.mem_cons, not_or] at hline
    have hnext := h.closing
    rw [Location.after_two (by decide) (by decide)] at hnext
    exact ih hline.2.2 hnext
  | case7 start column c rest hopen ih =>
    simp only [List.mem_cons, not_or] at hline
    have hnext := h.inside (by
      intro hstar hslash
      cases rest with
      | nil => exact head?_of_atLineEnd htail hslash
      | cons d rest =>
        obtain rfl : d = '/' := by simpa using hslash
        exact hopen rest hstar rfl)
    rw [Location.after_one (Ne.symm hline.1)] at hnext
    exact ih hline.2 hnext

end

/-! ### Lines -/

/-- What follows a line in the text, and the lines that are to come. -/
inductive LineEnd : List Char → List (List Char) → Prop where
  | stop : LineEnd [] []
  | lf (cs : List Char) : LineEnd ('\n' :: cs) (Text.lines cs)
  | crlf (cs : List Char) : LineEnd ('\r' :: '\n' :: cs) (Text.lines cs)

theorem LineEnd.atLineEnd {tail : List Char} {later : List (List Char)} (h : LineEnd tail later) :
    Lexeme.AtLineEnd tail := by
  cases h with
  | stop => exact .stop
  | lf cs => exact .lf cs
  | crlf cs => exact .crlf cs

/-- The first line of a text that is not empty. -/
theorem exists_first_line {cs : List Char} (h : cs ≠ []) :
    ∃ line tail later, cs = line ++ tail ∧ Text.lines cs = line :: later ∧ '\n' ∉ line ∧
      LineEnd tail later := by
  induction cs with
  | nil => exact absurd rfl h
  | cons c cs ih =>
    by_cases hlf : c = '\n'
    · subst hlf
      exact ⟨[], _, _, rfl, rfl, by simp, .lf cs⟩
    · by_cases hcr : c = '\r' ∧ cs.head? = some '\n'
      · obtain ⟨rfl, hhead⟩ := hcr
        cases cs with
        | nil => simp at hhead
        | cons d cs =>
          obtain rfl : d = '\n' := by simpa using hhead
          exact ⟨[], _, _, rfl, rfl, by simp, .crlf cs⟩
      · rw [Text.lines, Text.linesBy, if_neg hlf, if_neg hcr, ← Text.lines]
        by_cases hnil : cs = []
        · subst hnil
          exact ⟨[c], [], [], rfl, rfl, by simpa using Ne.symm hlf, .stop⟩
        · obtain ⟨line, tail, later, hcs, hlines, hline, hend⟩ := ih hnil
          rw [hlines]
          refine ⟨c :: line, tail, later, by rw [hcs]; rfl, rfl, ?_, hend⟩
          simp [Ne.symm hlf, hline]

theorem isBlank_lf : Text.isBlank '\n' = true := by
  decide

theorem isBlank_cr : Text.isBlank '\r' = true := by
  decide

/-- A blank that closes no comment leaves the gap as it is. -/
theorem Gap.Reached.skip {l p : Location} {text rest : List Char} {gap : Gap} {c : Char}
    (h : Reached l text gap p (c :: rest)) (hblank : Text.isBlank c = true) (hc : c ≠ '*') :
    Reached l text gap (p.after [c]) rest := by
  cases gap with
  | space => exact h.blank hblank
  | comment start => exact h.inside fun hstar => absurd hstar hc

/-- The next line after a line end, with the gap still open. -/
theorem Gap.Reached.nextLine {l : Location} {text tail : List Char} {gap : Gap}
    {line column : Nat} {next : List Char} {later : List (List Char)}
    (h : Reached l text gap ⟨line, column⟩ tail) (hend : LineEnd tail (next :: later)) :
    ∃ tail', '\n' ∉ next ∧ LineEnd tail' later ∧
      Reached l text gap ⟨line + 1, 1⟩ (next ++ tail') := by
  have hlines : ∃ cs, Text.lines cs = next :: later ∧ Reached l text gap ⟨line + 1, 1⟩ cs := by
    generalize hall : next :: later = all at hend
    cases hend with
    | stop => simp at hall
    | lf cs => exact ⟨cs, rfl, h.skip isBlank_lf (by decide)⟩
    | crlf cs =>
      have hcr := h.skip isBlank_cr (by decide)
      rw [Location.after_one (by decide)] at hcr
      exact ⟨cs, rfl, hcr.skip isBlank_lf (by decide)⟩
  obtain ⟨cs, hcs, hreached⟩ := hlines
  have hne : cs ≠ [] := by
    rintro rfl
    exact nomatch hcs
  obtain ⟨first, tail', rest, rfl, hfirst, hline, hend'⟩ := exists_first_line hne
  obtain ⟨rfl, rfl⟩ := List.cons.inj (hfirst.symm.trans hcs)
  exact ⟨tail', hline, hend', hreached⟩

theorem Gap.Reached.lastLine {l p : Location} {text tail : List Char} {gap : Gap}
    (h : Reached l text gap p tail) (hend : LineEnd tail []) :
    ∃ p', Reached l text gap p' [] := by
  have hnil : ∀ cs, [] = Text.lines cs → cs = [] := by
    intro cs hcs
    by_contra hne
    obtain ⟨line, tail, later, -, hlines, -⟩ := exists_first_line hne
    exact nomatch hcs.trans hlines
  generalize hall : ([] : List (List Char)) = all at hend
  cases hend with
  | stop => exact ⟨p, h⟩
  | lf cs =>
    obtain rfl := hnil cs hall
    exact ⟨_, h.skip isBlank_lf (by decide)⟩
  | crlf cs =>
    obtain rfl := hnil cs hall
    exact ⟨_, (h.skip isBlank_cr (by decide)).skip isBlank_lf (by decide)⟩

/-! ### Tokens -/

namespace Cursor

/-- The place just past the last character of the last line. -/
def finish (c : Cursor) : Location :=
  ⟨c.line + c.later.length,
    (c.later.getLast?.map List.length).getD (c.column + c.rest.length) + 1⟩

theorem finish_nextLine (line column : Nat) (rest next : List Char) (later : List (List Char))
    (failure : Option ReadError) :
    finish ⟨line + 1, 0, next, later, failure⟩ =
      finish ⟨line, column, rest, next :: later, failure⟩ := by
  simp only [finish, List.getLast?_cons, List.length_cons, Option.map_some, Option.getD_some,
    Location.mk.injEq]
  refine ⟨by omega, ?_⟩
  cases later.getLast? <;> simp

theorem finish_skip (line column : Nat) (cs more : List Char) (later : List (List Char))
    (failure : Option ReadError) :
    finish ⟨line, column + cs.length, more, later, failure⟩ =
      finish ⟨line, column, cs ++ more, later, failure⟩ := by
  simp [finish, Nat.add_assoc]

theorem loc_le_finish (c : Cursor) (hline : 1 ≤ c.line) : c.loc ≤ c.finish := by
  rw [Location.le_iff]
  cases hlater : c.later with
  | nil =>
    simp only [loc, finish, hlater]
    right
    simp [Nat.max_eq_left hline]
  | cons next later =>
    left
    simp only [loc, finish, hlater, Nat.max_eq_left hline, List.length_cons]
    omega

/-- What is found behind the gap from `l` on, in a text that stops at `stop`: the token
    at the front of a line, or the end. -/
inductive Found (l : Location) (text : List Char) (stop : Location) : Token × Cursor → Prop where
  | token {line column : Nat} {head : Char} {rest tail : List Char} {later : List (List Char)} :
      1 ≤ line → '\n' ∉ head :: rest → LineEnd tail later →
      Gap.Reached l text .space ⟨line, column + 1⟩ (head :: rest ++ tail) →
      finish ⟨line, column, head :: rest, later, none⟩ = stop →
      Found l text stop (take ⟨line, column, head :: rest, later, none⟩ head rest)
  | terminal {gap : Gap} {p : Location} {c : Cursor} : Gap.Reached l text gap p [] →
      c.failure = none → c.loc = stop → Found l text stop (c.terminal gap, c)

theorem found_token {l : Location} {text : List Char} {line column column' : Nat} {gap : Gap}
    {cs tail rest : List Char} {head : Char} {later : List (List Char)} (hpos : 1 ≤ line)
    (hline : '\n' ∉ cs) (hend : LineEnd tail later)
    (hcross : Gap.cross line gap column cs = .token column' head rest)
    (h : Gap.Reached l text .space ⟨line, column' + 1⟩ (head :: rest ++ tail)) :
    Found l text (finish ⟨line, column, cs, later, none⟩)
      (take ⟨line, column', head :: rest, later, none⟩ head rest) := by
  obtain ⟨hle, hdrop⟩ := Gap.cross_token hcross
  refine .token hpos ?_ hend h ?_
  · rw [← hdrop]
    exact fun hmem => hline (List.mem_of_mem_drop hmem)
  · have hlength := congrArg List.length hdrop
    rw [List.length_drop, List.length_cons] at hlength
    simp only [finish, List.length_cons]
    rw [show column' + (rest.length + 1) = column + cs.length by omega]

theorem found_nextIn {l : Location} {text tail : List Char} (later : List (List Char))
    (line column : Nat) (cs : List Char) (gap : Gap) (hpos : 1 ≤ line) (hline : '\n' ∉ cs)
    (hend : LineEnd tail later) (h : Gap.Reached l text gap ⟨line, column + 1⟩ (cs ++ tail)) :
    Found l text (finish ⟨line, column, cs, later, none⟩)
      (nextIn none later line column cs gap) := by
  have hreached := Gap.reached_of_cross hend.atLineEnd hline h
  induction later generalizing line column cs gap tail with
  | nil =>
    rw [nextIn]
    cases hcross : Gap.cross line gap column cs with
    | token column' head rest =>
      rw [hcross] at hreached
      exact found_token hpos hline hend hcross hreached
    | lineEnd gap' =>
      rw [hcross] at hreached
      obtain ⟨column', hreached⟩ := hreached
      obtain ⟨p, hlast⟩ := hreached.lastLine hend
      refine .terminal hlast rfl ?_
      simp [loc, finish, Nat.max_eq_left hpos]
  | cons next later ih =>
    rw [nextIn]
    cases hcross : Gap.cross line gap column cs with
    | token column' head rest =>
      rw [hcross] at hreached
      exact found_token hpos hline hend hcross hreached
    | lineEnd gap' =>
      rw [hcross] at hreached
      obtain ⟨column', hreached⟩ := hreached
      obtain ⟨tail', hnext, hend', hreached⟩ := hreached.nextLine hend
      rw [← finish_nextLine]
      exact ih _ _ _ _ (by omega) hnext hend' hreached
        (Gap.reached_of_cross hend'.atLineEnd hnext hreached)

theorem loc_eq {c : Cursor} (hpos : 1 ≤ c.line) : c.loc = ⟨c.line, c.column + 1⟩ := by
  rw [loc, Nat.max_eq_left hpos]

theorem found_next {tail : List Char} {c : Cursor} (hpos : 1 ≤ c.line) (hline : '\n' ∉ c.rest)
    (hend : LineEnd tail c.later) (hfailure : c.failure = none) :
    Found c.loc (c.rest ++ tail) c.finish c.next := by
  have hreached : Gap.Reached c.loc (c.rest ++ tail) .space c.loc (c.rest ++ tail) :=
    .space (List.nil_append _).symm .nil
  rw [loc_eq hpos] at hreached ⊢
  have hfound := found_nextIn c.later c.line c.column c.rest .space hpos hline hend hreached
  rw [next, hfailure]
  exact hfound

theorem terminal_space {c : Cursor} (h : c.failure = none) :
    c.terminal .space = ⟨.eos, .point c.loc⟩ := by
  simp only [terminal, h]

theorem terminal_comment {c : Cursor} (h : c.failure = none) (start : Location) :
    c.terminal (.comment start) = ⟨.error .unterminatedComment, ⟨start, c.loc⟩⟩ := by
  simp only [terminal, h]

/-- At the end of the text the gap is over, or a comment is still open. -/
theorem covers_terminal {l p : Location} {text : List Char} {gap : Gap} {c : Cursor}
    (h : Gap.Reached l text gap p []) (hfailure : c.failure = none) (hle : l ≤ c.loc) :
    Covers l text [] (c.terminal gap) ∧
      ((c.terminal gap).kind = .eos → (c.terminal gap).span = .point c.loc) := by
  cases h with
  | space htext hgap =>
    rw [List.append_nil] at htext
    subst htext
    rw [terminal_space hfailure]
    exact ⟨.eos hgap hle, fun _ => rfl⟩
  | comment htext hgap hbody _ =>
    rw [List.append_nil] at htext hgap
    subst htext
    rw [terminal_comment hfailure]
    exact ⟨.error hgap (.comment hbody), fun h => nomatch h⟩

section

variable {l : Location} {text rest tail : List Char} {line column : Nat} {head : Char}
  {later : List (List Char)}

theorem covers_error (hpos : 1 ≤ line) (htail : Lexeme.AtLineEnd tail)
    (h : Gap.Reached l text .space ⟨line, column + 1⟩ (head :: rest ++ tail))
    (hterminal : (Lexeme.read head rest).1.isTerminal = true) :
    Covers l text [] (take ⟨line, column, head :: rest, later, none⟩ head rest).1 ∧
      (take ⟨line, column, head :: rest, later, none⟩ head rest).1.kind ≠ .eos := by
  refine ⟨?_, Lexeme.read_ne_eos head rest⟩
  obtain ⟨e, herror⟩ := Lexeme.error_of_read hterminal
  have hmissing := Lexeme.missing_of_read htail hterminal
  generalize hplace : (⟨line, column + 1⟩ : Location) = place at h
  cases h with
  | space htext hgap =>
    subst htext
    rw [take, loc_eq hpos, herror, hplace]
    exact .error hgap (.token hmissing)

theorem covers_token {cs more : List Char} {ts : List Token} {last : Token} (hpos : 1 ≤ line)
    (h : Gap.Reached l text .space ⟨line, column + 1⟩ (head :: (cs ++ more) ++ tail))
    (hwidth : (Lexeme.read head (cs ++ more)).2 = cs.length + 1)
    (hlexeme : Lexeme.Longest (head :: cs) (more ++ tail) (Lexeme.read head (cs ++ more)).1)
    (hrest : Covers ⟨line, column + (cs.length + 1) + 1⟩ (more ++ tail) ts last) :
    Covers l text
      ((take ⟨line, column, head :: (cs ++ more), later, none⟩ head (cs ++ more)).1 :: ts)
      last := by
  have hafter : Location.after ⟨line, column + 1⟩ (head :: cs) =
      ⟨line, column + (cs.length + 1) + 1⟩ := by
    rw [Location.after_line _ hlexeme.spelling.onLine.ne_lf, List.length_cons, Nat.add_right_comm]
  have hspan : (take ⟨line, column, head :: (cs ++ more), later, none⟩ head (cs ++ more)).1 =
      ⟨(Lexeme.read head (cs ++ more)).1,
        ⟨⟨line, column + 1⟩, Location.after ⟨line, column + 1⟩ (head :: cs)⟩⟩ := by
    rw [hafter]
    simp only [take, skip, loc, hwidth, Nat.max_eq_left hpos]
  rw [hspan]
  rw [← hafter] at hrest
  generalize (⟨line, column + 1⟩ : Location) = place at h hrest
  cases h with
  | space htext hgap =>
    have hall : head :: (cs ++ more) ++ tail = (head :: cs) ++ (more ++ tail) := by simp
    rw [hall] at htext hgap
    subst htext
    rw [← Location.after_append] at hrest ⊢
    exact .token hgap hlexeme hrest

end

theorem covers_tokens {tail : List Char} (c : Cursor) (hpos : 1 ≤ c.line) (hline : '\n' ∉ c.rest)
    (hend : LineEnd tail c.later) (hfailure : c.failure = none) :
    ∃ ts last, c.tokens = ts ++ [last] ∧ Covers c.loc (c.rest ++ tail) ts last ∧
      (last.kind = .eos → last.span = .point c.finish) := by
  induction hsize : c.size using Nat.strongRecOn generalizing c tail with
  | _ n ih =>
    have hfound := found_next hpos hline hend hfailure
    have hsmaller := c.size_next_lt
    have hle := c.loc_le_finish hpos
    rw [tokens]
    generalize c.next = found at hfound hsmaller ⊢
    cases hfound with
    | @terminal gap p c' hreached hfailure' hstop =>
      rw [if_pos (isTerminal_terminal c' gap)]
      rw [← hstop] at hle ⊢
      obtain ⟨hcovers, heos⟩ := covers_terminal hreached hfailure' hle
      exact ⟨[], _, rfl, hcovers, heos⟩
    | @token line column head rest tail' later hpos' hline' hend' hreached hstop =>
      cases hterminal : (Lexeme.read head rest).1.isTerminal with
      | true =>
        rw [if_pos (show (take _ head rest).1.isTerminal = true from hterminal)]
        obtain ⟨hcovers, hne⟩ := covers_error hpos' hend'.atLineEnd hreached hterminal
        exact ⟨[], _, rfl, hcovers, fun heos => absurd heos hne⟩
      | false =>
        simp only [List.mem_cons, not_or] at hline'
        obtain ⟨cs, more, rfl, hwidth, hlexeme⟩ :=
          Lexeme.longest_of_read hline'.2 hend'.atLineEnd hterminal
        rw [if_neg (by rw [Token.isTerminal, take, hterminal]; decide)]
        -- the rest of the text is covered from the place behind the lexeme
        have hbehind :
            (take ⟨line, column, head :: (cs ++ more), later, none⟩ head (cs ++ more)).2 =
              ⟨line, column + (cs.length + 1), more, later, none⟩ := by
          simp only [take, skip, hwidth, List.drop_succ_cons, List.drop_left]
        have hmore : '\n' ∉ more := fun hmem => hline'.2 (List.mem_append_right _ hmem)
        have hlt := hsmaller hterminal
        rw [hbehind] at hlt ⊢
        obtain ⟨ts, last, htokens, hcovers, heos⟩ :=
          ih _ (hsize ▸ hlt) ⟨line, column + (cs.length + 1), more, later, none⟩ hpos' hmore hend'
            rfl rfl
        rw [loc_eq hpos'] at hcovers
        refine ⟨_ :: ts, last, by rw [htokens]; rfl,
          covers_token hpos' hreached hwidth hlexeme hcovers, fun hkind => ?_⟩
        rw [heos hkind, ← hstop]
        exact congrArg Span.point (finish_skip line column (head :: cs) more later none)

end Cursor

/-- The place just past the last character of the last line of a text. -/
def Text.finish (cs : List Char) : Location :=
  ⟨max (lines cs).length 1, ((lines cs).getLast?.getD []).length + 1⟩

theorem Cursor.finish_start {cs line : List Char} {later : List (List Char)}
    (h : Text.lines cs = line :: later) (failure : Option ReadError) :
    finish ⟨0 + 1, 0, line, later, failure⟩ = Text.finish cs := by
  rw [Text.finish, h, List.getLast?_cons]
  simp only [finish, List.length_cons, Option.getD_some, Location.mk.injEq]
  refine ⟨by omega, ?_⟩
  cases later.getLast? <;> simp

/-- The tokens of a text are the lexemes of the text, each at its place, with nothing
    but filler between them. -/
theorem Source.tokens_cover (text : String) :
    ∃ ts last, (Source.ofString text).tokens = ts ++ [last] ∧
      (∀ t ∈ ts, t.isTerminal = false) ∧ last.isTerminal = true ∧
      (∀ t ∈ ts, t.span.start.line = t.span.stop.line ∧
        t.span.start.column < t.span.stop.column) ∧
      ((ts ++ [last]).Pairwise fun t u => t.span.stop ≤ u.span.start) ∧
      Covers ⟨1, 1⟩ text.toList ts last ∧
      (last.kind = .eos → last.span = .point (Text.finish text.toList)) := by
  suffices hcovers : ∃ ts last, (Source.ofString text).tokens = ts ++ [last] ∧
      Covers ⟨1, 1⟩ text.toList ts last ∧
      (last.kind = .eos → last.span = .point (Text.finish text.toList)) by
    obtain ⟨ts, last, htokens, hcovers, heos⟩ := hcovers
    exact ⟨ts, last, htokens, hcovers.isTerminal_of_mem, hcovers.isTerminal_last, hcovers.oneLine,
      hcovers.pairwise, hcovers, heos⟩
  rw [Source.ofString, Source.tokens, Cursor.start, Source.ofChars]
  by_cases hempty : text.toList = []
  · rw [hempty]
    exact ⟨[], ⟨.eos, .point ⟨1, 1⟩⟩, by rw [Cursor.tokens]; rfl,
      .eos .nil (Location.le_refl _), fun _ => rfl⟩
  · obtain ⟨line, tail, later, htext, hlines, hline, hend⟩ := exists_first_line hempty
    rw [hlines, Cursor.tokens_lineEnd]
    obtain ⟨ts, last, htokens, hcovers, heos⟩ :=
      Cursor.covers_tokens ⟨0 + 1, 0, line, later, none⟩ (Nat.le_refl 1) hline hend rfl
    refine ⟨ts, last, htokens, by rw [htext]; exact hcovers, fun hkind => ?_⟩
    rw [heos hkind, Cursor.finish_start hlines]

theorem Source.tokens_cover_sample :
    Covers ⟨1, 1⟩ "s = \"a\\n\" + 42 /* to */\n'\\0' // end".toList
      [⟨.ident "s", ⟨⟨1, 1⟩, ⟨1, 2⟩⟩⟩, ⟨.symbol .eq, ⟨⟨1, 3⟩, ⟨1, 4⟩⟩⟩,
        ⟨.string "a\n", ⟨⟨1, 5⟩, ⟨1, 10⟩⟩⟩, ⟨.symbol .plus, ⟨⟨1, 11⟩, ⟨1, 12⟩⟩⟩,
        ⟨.int 42, ⟨⟨1, 13⟩, ⟨1, 15⟩⟩⟩, ⟨.char '\x00', ⟨⟨2, 1⟩, ⟨2, 5⟩⟩⟩]
      ⟨.eos, .point ⟨2, 12⟩⟩ := by
  obtain ⟨ts, last, htokens, -, -, -, -, hcovers, -⟩ :=
    Source.tokens_cover "s = \"a\\n\" + 42 /* to */\n'\\0' // end"
  have hread : (Source.ofString "s = \"a\\n\" + 42 /* to */\n'\\0' // end").tokens =
      [⟨.ident "s", ⟨⟨1, 1⟩, ⟨1, 2⟩⟩⟩, ⟨.symbol .eq, ⟨⟨1, 3⟩, ⟨1, 4⟩⟩⟩,
        ⟨.string "a\n", ⟨⟨1, 5⟩, ⟨1, 10⟩⟩⟩, ⟨.symbol .plus, ⟨⟨1, 11⟩, ⟨1, 12⟩⟩⟩,
        ⟨.int 42, ⟨⟨1, 13⟩, ⟨1, 15⟩⟩⟩, ⟨.char '\x00', ⟨⟨2, 1⟩, ⟨2, 5⟩⟩⟩] ++
      [⟨.eos, .point ⟨2, 12⟩⟩] := by decide +kernel
  obtain ⟨rfl, hlast⟩ := List.append_inj' (htokens.symm.trans hread) rfl
  obtain rfl := List.singleton_inj.1 hlast
  exact hcovers

end Shc
