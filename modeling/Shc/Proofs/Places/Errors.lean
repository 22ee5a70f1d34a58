import Shc.Compile.Error
import Shc.Proofs.ErrorPrefix
import Shc.Proofs.Places.Excerpt

/-!
# Errors concern text that is there

The span of an error is that of a token of the source.  The one exception is a run of
markers in front of a call: its error goes from the first marker of the run to the end of
the name.  In both cases it starts and ends at places of the text, so showing it never
cuts a column and what is underlined is the text that it covers.

That a run of markers is meant from its first marker on needs an invariant, since a parser
does not look back: whenever a marker is the current token and a parser is about to start,
the token in front of it is no marker.  `Fresh` says this.
-/

namespace Shc

/-- What an error concerns: one of the tokens, or a whole run of markers with the name of a
    call behind it. -/
inductive ParseError.Concerns (ts : List Token) (e : ParseError) : Prop where
  | token {t : Token} : t ∈ ts → e.span = t.span → Concerns ts e
  | markers {before run after : List Token} {first name opening : Token} {n : String} :
      ts = before ++ (first :: run ++ name :: opening :: after) →
      (∀ t ∈ before.getLast?, t.kind ≠ .symbol .caret) →
      (∀ t ∈ first :: run, t.kind = .symbol .caret) →
      name.kind = .ident n → opening.kind = .symbol .lparen →
      e = ⟨.markerWithoutVariable, ⟨first.span.start, name.span.stop⟩⟩ → Concerns ts e

/-! ### Parsers start in front of a run of markers -/

namespace Stream

/-- The stream is what is left of `ts`, and it does not start within a run of markers. -/
structure Fresh (ts : List Token) (s : Stream) : Prop where
  closed : s.Closed
  eq_append : ∃ before, ts = before ++ s.toList ∧
    (s.current.kind = .symbol .caret → ∀ t ∈ before.getLast?, t.kind ≠ .symbol .caret)

namespace Fresh

variable {ts run : List Token} {s s' : Stream}

theorem mem_of_prepend (h : (s'.prepend run).Fresh ts) : ∀ t ∈ run ++ s'.toList, t ∈ ts := by
  obtain ⟨before, hts, -⟩ := h.eq_append
  intro t ht
  rw [hts, toList_prepend]
  exact List.mem_append_right _ ht

theorem current_mem (h : s.Fresh ts) : s.current ∈ ts := by
  obtain ⟨before, hts, -⟩ := h.eq_append
  rw [hts]
  exact List.mem_append_right _ List.mem_cons_self

/-- Behind a run of markers no marker is left. -/
theorem of_prepend_of_ne (h : (s'.prepend run).Fresh ts)
    (hcurrent : s'.current.kind ≠ .symbol .caret) : s'.Fresh ts := by
  obtain ⟨before, hts, -⟩ := h.eq_append
  refine ⟨closed_of_prepend h.closed, before ++ run, ?_, fun hcaret => absurd hcaret hcurrent⟩
  rw [hts, toList_prepend, List.append_assoc]

/-- Behind a token that is no marker. -/
theorem of_prepend_concat {t : Token} (h : (s'.prepend (run ++ [t])).Fresh ts)
    (ht : t.kind ≠ .symbol .caret) : s'.Fresh ts := by
  obtain ⟨before, hts, -⟩ := h.eq_append
  refine ⟨closed_of_prepend h.closed, before ++ (run ++ [t]), ?_, ?_⟩
  · rw [hts, toList_prepend, ← List.append_assoc before]
  · intro _ u hu
    rw [← List.append_assoc, List.getLast?_concat, Option.mem_some_iff] at hu
    rwa [← hu]

end Fresh

theorem fresh_ofSource (source : Source) : (ofSource source).Fresh source.tokens :=
  ⟨closed_ofSource source, [], by rw [toList_ofSource]; rfl, by simp⟩

end Stream

/-! ### What the errors of a parser concern -/

namespace Parser

variable {α β : Type}

/-- A run leaves a stream that is fresh again, or an error that concerns the tokens. -/
inductive Ends (ts : List Token) : EStateM.Result ParseError Stream α → Prop where
  | ok (a : α) {s : Stream} : s.Fresh ts → Ends ts (.ok a s)
  | error {e : ParseError} (s : Stream) : e.Concerns ts → Ends ts (.error e s)

/-- In front of a fresh stream, with the current token `front` where it is known and tokens
    `seen` behind it, every run of the parser ends so. -/
def Points (front : Option Token) (seen : List Token) (p : Parser α) : Prop :=
  ∀ (ts : List Token) (s : Stream), s.Fresh ts → (∀ t ∈ front, s.current = t) →
    (∀ t ∈ seen, t ∈ ts) → Ends ts (p s)

/-- Consuming a token leads to the one behind it, or to the lexical error there. -/
theorem advance_cases {s : Stream} (hs : s.Closed) (hcurrent : s.current.isTerminal = false) :
    ∃ s', s = s'.prepend [s.current] ∧
      (advance s = .ok s.current s' ∨
        ∃ e, advance s = .error e s' ∧ e.span = s'.current.span) := by
  refine ⟨s.tail, hs.eq_prepend_tail hcurrent, ?_⟩
  rw [advance_run hcurrent]
  rcases s.tail.clean_or_error with hclean | ⟨err, herr⟩
  · left
    rw [bind_of_ok ((checked_eq_ok (u := ())).2 ⟨hclean, rfl⟩)]
    rfl
  · right
    exact ⟨_, bind_of_error (checked_of_error herr) _, rfl⟩

/-- A run of markers is consumed to its end, or to a lexical error behind one of them. -/
theorem markers_cases {s : Stream} (hs : s.Closed) :
    ∃ run s', s = s'.prepend run ∧ (∀ t ∈ run, t.kind = .symbol .caret) ∧
      (markers s = .ok run.length s' ∧ s'.current.kind ≠ .symbol .caret ∨
        ∃ e, markers s = .error e s' ∧ e.span = s'.current.span) := by
  suffices hloop : ∀ n : Nat, ∃ run s', s = s'.prepend run ∧
      (∀ t ∈ run, t.kind = .symbol .caret) ∧
      (iterate (fun n => do
          if ← accept (.symbol .caret) then return some (n + 1) else return none) n s =
            .ok (n + run.length) s' ∧ s'.current.kind ≠ .symbol .caret ∨
        ∃ e, iterate (fun n => do
          if ← accept (.symbol .caret) then return some (n + 1) else return none) n s =
            .error e s' ∧ e.span = s'.current.span) by
    have hzero := hloop 0
    simp only [Nat.zero_add] at hzero
    exact hzero
  induction hsize : s.size using Nat.strongRecOn generalizing s with
  | _ size ih =>
    intro n
    by_cases hcaret : s.current.kind = .symbol .caret
    · have hproper : s.current.isTerminal = false := by
        rw [Token.isTerminal, hcaret]
        rfl
      obtain ⟨s₁, hprepend, hadvance⟩ := advance_cases hs hproper
      have hclosed : s₁.Closed := Stream.closed_of_prepend (hprepend ▸ hs)
      have hlt : s₁.size < s.size := by
        have hsizes := congrArg Stream.size hprepend
        rw [Stream.size_prepend, List.length_singleton] at hsizes
        omega
      rcases hadvance with hadvance | ⟨e, hadvance, hspan⟩
      · have haccept : accept (.symbol .caret) s = .ok true s₁ := by
          rw [accept, peek_bind, if_pos hcaret, bind_of_ok hadvance]
          rfl
        obtain ⟨run, s', hrun, hcarets, hresult⟩ := ih _ (hsize ▸ hlt) hclosed rfl (n + 1)
        refine ⟨s.current :: run, s', ?_, List.forall_mem_cons.2 ⟨hcaret, hcarets⟩, ?_⟩
        · rw [hprepend, hrun]
          rfl
        · rw [iterate_of_some (bind_of_ok haccept _) hlt, List.length_cons,
            Nat.add_comm run.length, ← Nat.add_assoc]
          exact hresult
      · refine ⟨[s.current], s₁, hprepend, by simpa using hcaret, .inr ⟨e, ?_, hspan⟩⟩
        have haccept : accept (.symbol .caret) s = .error e s₁ := by
          rw [accept, peek_bind, if_pos hcaret, bind_of_error hadvance]
        exact iterate_of_error (bind_of_error haccept _)
    · refine ⟨[], s, rfl, by simp, .inl ⟨?_, hcaret⟩⟩
      exact acceptLoop_of_ne hcaret

section

variable {front : Option Token} {seen : List Token}

theorem points_pure (a : α) : Points front seen (pure a : Parser α) := by
  intro ts s hs _ _
  exact .ok a hs

theorem points_fail {kind : ParseError.Kind} {t : Token} (ht : t ∈ seen) :
    Points front seen (fail kind t.span : Parser α) := by
  intro ts s _ _ hseen
  exact .error s (.token (hseen t ht) rfl)

theorem Points.peek {k : Token → Parser β} (h : ∀ t, Points (some t) (t :: seen) (k t)) :
    Points front seen (peek >>= k) := by
  intro ts s hs _ hseen
  rw [peek_bind]
  apply h s.current ts s hs
  · intro t ht
    exact Option.some.inj ht
  · intro t ht
    rcases List.mem_cons.1 ht with rfl | ht
    · exact hs.current_mem
    · exact hseen t ht

theorem points_advance {t : Token} (ht : t.kind ≠ .symbol .caret) :
    Points (some t) seen advance := by
  intro ts s hs hfront _
  obtain rfl := hfront t rfl
  cases hterminal : s.current.isTerminal with
  | false =>
    obtain ⟨s₁, hprepend, hadvance⟩ := advance_cases hs.closed hterminal
    have hs₁ : (s₁.prepend ([] ++ [s.current])).Fresh ts := hprepend ▸ hs
    rcases hadvance with hadvance | ⟨e, hadvance, hspan⟩
    · rw [hadvance]
      exact .ok _ (hs₁.of_prepend_concat ht)
    · rw [hadvance]
      exact .error s₁ (.token (hs₁.mem_of_prepend _ (by simp [Stream.toList])) hspan)
  | true =>
    -- the last token stays
    rw [advance_eq, if_pos hterminal]
    rcases s.clean_or_error with hclean | ⟨err, herr⟩
    · rw [bind_of_ok ((checked_eq_ok (u := ())).2 ⟨hclean, rfl⟩)]
      exact .ok _ hs
    · rw [bind_of_error (checked_of_error herr)]
      exact .error s (.token hs.current_mem rfl)

theorem points_markers : Points front seen markers := by
  intro ts s hs _ _
  obtain ⟨run, s₁, rfl, -, hresult⟩ := markers_cases hs.closed
  rcases hresult with ⟨hok, hcurrent⟩ | ⟨e, herror, hspan⟩
  · rw [hok]
    exact .ok _ (hs.of_prepend_of_ne hcurrent)
  · rw [herror]
    exact .error s₁ (.token (hs.mem_of_prepend _ (by simp [Stream.toList])) hspan)

theorem Points.bind {p : Parser α} {k : α → Parser β} (hp : Points front seen p)
    (hk : ∀ a, Points none seen (k a)) : Points front seen (p >>= k) := by
  intro ts s hs hfront hseen
  have hends := hp ts s hs hfront hseen
  generalize hrun : p s = x at hends
  cases hends with
  | ok a hs₁ =>
    rw [bind_of_ok hrun]
    exact hk a ts _ hs₁ (by simp) hseen
  | error s₁ he =>
    rw [bind_of_error hrun]
    exact .error s₁ he

theorem Points.iterate {step : β → Parser (Option β)} (h : ∀ b, Points none seen (step b)) (b : β) :
    Points front seen (iterate step b) := by
  intro ts s hs _ hseen
  clear * - h hs hseen
  induction hsize : s.size using Nat.strongRecOn generalizing b s with
  | _ n ih =>
    have hends := h b ts s hs (by simp) hseen
    generalize hrun : step b s = x at hends
    cases hends with
    | error s₁ he =>
      rw [iterate_of_error hrun]
      exact .error s₁ he
    | @ok found s₁ hs₁ =>
      cases found with
      | none =>
        rw [iterate_of_none hrun]
        exact .ok b hs₁
      | some b' =>
        by_cases hlt : s₁.size < s.size
        · rw [iterate_of_some hrun hlt]
          exact ih _ (hsize ▸ hlt) b' s₁ hs₁ rfl
        · rw [iterate_of_still hrun hlt]
          exact .ok b' hs₁

/-- The name behind a run of markers: if it is that of a call, the error concerns the whole
    run and the name. -/
theorem ends_behind_markers {ts run : List Token} {first : Token} {s : Stream} {n : String}
    (hs : (s.prepend (first :: run)).Fresh ts)
    (hcarets : ∀ t ∈ first :: run, t.kind = .symbol .caret) (hname : s.current.kind = .ident n)
    (scope : Scope) (usage : Nat) :
    Ends ts ((do
      let _ ← advance
      if (← peek).kind = .symbol .lparen then
        fail .markerWithoutVariable ⟨first.loc, s.current.span.stop⟩
      else resolve scope n s.current.span usage first.loc : Parser Reference) s) := by
  have hproper : s.current.isTerminal = false := by
    rw [Token.isTerminal, hname]
    rfl
  obtain ⟨s₁, hprepend, hadvance⟩ :=
    advance_cases (Stream.closed_of_prepend hs.closed) hproper
  have hs₁ : (s₁.prepend (first :: run ++ [s.current])).Fresh ts := by
    rw [Stream.prepend_append, ← hprepend]
    exact hs
  have hmem := hs₁.mem_of_prepend
  rcases hadvance with hadvance | ⟨e, hadvance, hspan⟩
  · rw [bind_of_ok hadvance, peek_bind]
    by_cases hopening : s₁.current.kind = .symbol .lparen
    · rw [if_pos hopening]
      obtain ⟨before, hts, hbefore⟩ := hs₁.eq_append
      rw [Stream.toList_prepend, List.append_assoc] at hts
      exact .error s₁ (.markers hts (hbefore (hcarets first List.mem_cons_self)) hcarets hname
        hopening rfl)
    · rw [if_neg hopening, resolve]
      cases scope.find? n with
      | some decl => exact .ok _ (hs₁.of_prepend_concat (by rw [hname]; simp))
      | none => exact .error s₁ (.token (hmem s.current (by simp)) rfl)
  · rw [bind_of_error hadvance]
    exact .error s₁ (.token (hmem s₁.current (by simp [Stream.toList])) hspan)

theorem points_marked {t : Token} (scope : Scope) (ht : t.kind = .symbol .caret) :
    Points (some t) seen (marked scope) := by
  intro ts s hs hfront _
  obtain rfl := hfront t rfl
  rw [marked, peek_bind]
  obtain ⟨run, s₁, hprepend, hcarets, hresult⟩ := markers_cases hs.closed
  have hs₁ : (s₁.prepend run).Fresh ts := hprepend ▸ hs
  have hcurrent : s₁.current ∈ ts := hs₁.mem_of_prepend _ (by simp [Stream.toList])
  rcases hresult with ⟨hok, hne⟩ | ⟨e, herror, hspan⟩
  · rw [bind_of_ok hok, peek_bind]
    cases hkind : s₁.current.kind with
    | ident n =>
      cases run with
      | nil =>
        rw [hprepend] at ht
        exact absurd ht hne
      | cons first run =>
        have hfirst : s.current = first := by
          rw [hprepend]
          rfl
        rw [hfirst]
        exact ends_behind_markers hs₁ hcarets hkind scope _
    | _ => exact .error s₁ (.token hcurrent rfl)
  · rw [bind_of_error herror]
    exact .error s₁ (.token hcurrent hspan)

theorem Sighted.points {p : Parser α} (h : Sighted front seen p) : Points front seen p := by
  induction h with
  | pure a => exact points_pure a
  | fail ht _ => exact points_fail ht
  | peek _ ih => exact .peek ih
  | advance ht => exact points_advance ht
  | markers => exact points_markers
  | marked scope ht => exact points_marked scope ht
  | bind _ _ ihp ihk => exact .bind ihp ihk
  | iterate b _ ih => exact .iterate ih b

end

end Parser

namespace Reading

theorem concerns_ofStream {ts : List Token} {s : Stream} (hs : s.Fresh ts) {e : ParseError}
    (h : (ofStream s).error = some e) : e.Concerns ts := by
  have hitem : Parser.Points none [] Parser.item := Parser.sighted_item.points
  fun_induction ofStream s with
  | case1 s heos => cases h
  | case2 s heos e' s' hrun =>
    obtain rfl := Option.some.inj h
    have hends := hitem ts s hs (by simp) (by simp)
    rw [hrun] at hends
    cases hends with
    | error _ he => exact he
  | case3 s heos item s' hrun hlt later ih =>
    have hends := hitem ts s hs (by simp) (by simp)
    rw [hrun] at hends
    cases hends with
    | ok _ hs' => exact ih hs' h
  | case4 s heos item s' hrun hlt => cases h

/-- The error of a source concerns its tokens. -/
theorem concerns_ofSource {source : Source} {e : ParseError}
    (h : (ofSource source).error = some e) : e.Concerns source.tokens := by
  have hfresh := Stream.fresh_ofSource source
  rcases (Stream.ofSource source).clean_or_error with hclean | ⟨err, herr⟩
  · rw [ofSource_eq hclean] at h
    exact concerns_ofStream hfresh h
  · rw [ofSource, Parser.checked_of_error herr] at h
    obtain rfl := Option.some.inj h
    exact .token hfresh.current_mem rfl

end Reading

/-! ### The text of an error -/

theorem Program.error_of_parse {source : Source} {e : ParseError} (h : parse source = .error e) :
    (Reading.ofSource source).error = some e := by
  rw [parse, Reading.result] at h
  cases herror : (Reading.ofSource source).error with
  | none =>
    rw [herror] at h
    cases h
  | some e' =>
    rw [herror] at h
    rw [Except.error.inj h]

/-- Nothing is wrong with a text that is empty. -/
theorem Program.ne_nil_of_parse_error {cs : List Char} {e : ParseError}
    (h : parse (Source.ofChars cs) = .error e) : cs ≠ [] := by
  rintro rfl
  have hclean : (Stream.ofSource (Source.ofChars [])).Clean := by
    intro err herr
    cases herr
  have heos : (Stream.ofSource (Source.ofChars [])).current.kind = .eos := rfl
  have herror := error_of_parse h
  rw [Reading.ofSource_eq hclean, Reading.ofStream, if_pos heos] at herror
  cases herror

/-- What an error concerns starts and ends in the text. -/
theorem ParseError.Concerns.span_in {cs : List Char} (hne : cs ≠ []) {e : ParseError}
    (h : e.Concerns (Source.ofChars cs).tokens) : e.span.In (Text.lines cs) := by
  cases h with
  | token ht hspan =>
    rw [hspan]
    exact Source.span_in_lines hne ht
  | @markers before run after first name opening n hts _ _ _ _ he =>
    have hordered := Stream.ordered_ofSource (Source.ofChars cs)
    rw [Stream.Ordered, Stream.toList_ofSource, hts] at hordered
    have hrun := (List.pairwise_append.1 (List.pairwise_append.1 hordered).2.1).2.2
    have hstops := hrun first List.mem_cons_self name List.mem_cons_self
    have hfirst := Source.span_in_lines hne (t := first) (by rw [hts]; simp)
    have hname := Source.span_in_lines hne (t := name) (by rw [hts]; simp)
    rw [he]
    exact ⟨hfirst.start_on, hname.stop_on, Location.le_trans hfirst.le hstops⟩

/-- A parse error concerns a token, or a run of markers with the name of a call behind it,
    and it is shown as it stands in the text: its line is there, its columns are columns of
    that line, and what is underlined is what it covers. -/
theorem Program.parse_error_shown {text : String} {e : ParseError}
    (h : parse (Source.ofString text) = .error e) :
    e.Concerns (Source.ofString text).tokens ∧
      (∃ line covered, Diagnostic.Shows text e.span line covered) ∧
      ∀ color, (CompileError.parse e).render text color =
        Diagnostic.render text e.kind.message e.span color := by
  have hconcerns := Reading.concerns_ofSource (error_of_parse h)
  have hshows := Diagnostic.exists_shows (hconcerns.span_in (ne_nil_of_parse_error h))
  exact ⟨hconcerns, hshows, fun _ => rfl⟩

namespace MarkedCall

/-- A run of markers over two lines in front of a call, in a text with both line ends. -/
def text : String :=
  "fun f(): int \x7b\r\n\t^ ^\n  g(1);\n\x7d"

/-- The error goes on behind its first line. -/
def error : ParseError :=
  ⟨.markerWithoutVariable, ⟨⟨2, 2⟩, ⟨3, 4⟩⟩⟩

theorem parse_eq_error : Program.parse (Source.ofString text) = .error error := by
  decide +kernel

end MarkedCall

theorem Program.parse_error_shown_markedCall :
    parse (Source.ofString MarkedCall.text) = .error MarkedCall.error ∧
      MarkedCall.error.Concerns (Source.ofString MarkedCall.text).tokens ∧
      ∃ line covered,
        Diagnostic.Shows MarkedCall.text ⟨⟨2, 2⟩, ⟨3, 4⟩⟩ line covered := by
  obtain ⟨hconcerns, hshows, -⟩ := parse_error_shown MarkedCall.parse_eq_error
  exact ⟨MarkedCall.parse_eq_error, hconcerns, hshows⟩

end Shc
