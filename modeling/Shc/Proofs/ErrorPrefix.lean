import Shc.Proofs.GrammarExact
import Shc.Proofs.Lexing.Cover
import Shc.Proofs.Lexing.Trailing
import Shc.Proofs.Lookahead

/-!
# Errors are decided by what has been read

A parser that fails has looked at no token behind the current one.  Its error concerns
text up to the end of that token, and every source that starts with the same tokens, the
current one included, gives the same error, whatever comes behind them.  A lexical error
is the current token itself, which is then the last one.

`Reports s e` relates an error with the stream that is left.  Each primitive keeps it if
the tokens that have been seen end no later than the current one, which they do because
tokens end one after the other.
-/

namespace Shc

/-! ### Tokens end one after the other -/

namespace Cursor

theorem take_stop {c : Cursor} {column : Nat} (h : column ≤ c.column) (hpos : 1 ≤ c.line)
    (head : Char) (tail : List Char) :
    ⟨c.line, column + 1⟩ ≤ (c.take head tail).1.span.stop := by
  rw [Location.le_iff]
  right
  simp only [take, skip, loc, Nat.max_eq_left hpos, true_and]
  omega

theorem terminal_stop {c : Cursor} (hpos : 1 ≤ c.line) (gap : Gap) :
    c.loc ≤ (c.terminal gap).span.stop := by
  unfold terminal
  split
  · left
    simp only [loc, Span.point, Nat.max_eq_left hpos]
    omega
  · exact Location.le_refl _
  · exact Location.le_refl _

/-- The next token ends behind the cursor, and the place behind it is where it ends. -/
theorem nextIn_stop (failure : Option ReadError) (later : List (List Char)) (line column : Nat)
    (rest : List Char) (gap : Gap) (hpos : 1 ≤ line) :
    ⟨line, column + 1⟩ ≤ (nextIn failure later line column rest gap).1.span.stop ∧
      ((nextIn failure later line column rest gap).1.isTerminal = false →
        1 ≤ (nextIn failure later line column rest gap).2.line ∧
        (nextIn failure later line column rest gap).2.loc =
          (nextIn failure later line column rest gap).1.span.stop) := by
  induction later generalizing line column rest gap with
  | nil =>
    rw [nextIn]
    cases hcross : Gap.cross line gap column rest with
    | token column' head tail =>
      have hle := (Gap.cross_token hcross).1
      refine ⟨?_, fun _ => ⟨hpos, rfl⟩⟩
      exact take_stop (c := ⟨line, column', head :: tail, _, failure⟩) hle hpos head tail
    | lineEnd gap' =>
      dsimp only
      constructor
      · refine Location.le_trans ?_ (terminal_stop hpos gap')
        right
        simp only [loc, Nat.max_eq_left hpos, true_and]
        omega
      · intro hterminal
        rw [isTerminal_terminal] at hterminal
        exact absurd hterminal (by decide)
  | cons next later ih =>
    rw [nextIn]
    cases hcross : Gap.cross line gap column rest with
    | token column' head tail =>
      have hle := (Gap.cross_token hcross).1
      refine ⟨?_, fun _ => ⟨hpos, rfl⟩⟩
      exact take_stop (c := ⟨line, column', head :: tail, _, failure⟩) hle hpos head tail
    | lineEnd gap' =>
      obtain ⟨hstop, hbehind⟩ := ih (line + 1) 0 next gap' (by omega)
      refine ⟨Location.le_trans ?_ hstop, hbehind⟩
      left
      exact Nat.lt_succ_self line

theorem stops_sorted (c : Cursor) (hpos : 1 ≤ c.line) :
    (∀ t ∈ c.tokens, c.loc ≤ t.span.stop) ∧
      c.tokens.Pairwise fun t u => t.span.stop ≤ u.span.stop := by
  induction hsize : c.size using Nat.strongRecOn generalizing c with
  | _ n ih =>
    obtain ⟨hstop, hbehind⟩ := nextIn_stop c.failure c.later c.line c.column c.rest .space hpos
    change _ ≤ c.next.1.span.stop at hstop
    rw [← loc_eq hpos] at hstop
    rw [tokens]
    by_cases hterminal : c.next.1.isTerminal = true
    · rw [if_pos hterminal]
      exact ⟨by simpa using hstop, List.pairwise_singleton ..⟩
    · rw [if_neg hterminal]
      rw [Bool.not_eq_true] at hterminal
      obtain ⟨hpos', hloc⟩ := hbehind hterminal
      obtain ⟨hlater, hsorted⟩ := ih _ (hsize ▸ c.size_next_lt hterminal) c.next.2 hpos' rfl
      have hfirst : ∀ t ∈ c.next.2.tokens, c.next.1.span.stop ≤ t.span.stop := by
        intro t ht
        have hle := hlater t ht
        change (c.next).2.loc = c.next.1.span.stop at hloc
        rwa [hloc] at hle
      constructor
      · intro t ht
        rcases List.mem_cons.1 ht with rfl | ht
        · exact hstop
        · exact Location.le_trans hstop (hfirst t ht)
      · exact List.pairwise_cons.2 ⟨hfirst, hsorted⟩

end Cursor

namespace Stream

/-- The tokens of the stream end one after the other. -/
def Ordered (s : Stream) : Prop :=
  s.toList.Pairwise fun t u => t.span.stop ≤ u.span.stop

theorem ordered_ofSource (source : Source) : (ofSource source).Ordered := by
  rw [Ordered, toList_ofSource, Source.tokens, Cursor.start]
  cases hlines : source.lines with
  | nil =>
    have hterminal : (Cursor.next ⟨0, 0, [], [], source.failure⟩).1.isTerminal = true :=
      Cursor.isTerminal_terminal _ _
    rw [Cursor.tokens_of_terminal hterminal]
    exact List.pairwise_singleton ..
  | cons line later =>
    rw [Cursor.tokens_lineEnd]
    exact (Cursor.stops_sorted _ (Nat.le_refl 1)).2

theorem Ordered.of_prepend {ts : List Token} {s : Stream} (h : (s.prepend ts).Ordered) :
    s.Ordered := by
  rw [Ordered, toList_prepend] at h
  exact (List.pairwise_append.1 h).2.1

/-- The current token of what is left ends no earlier. -/
theorem Ordered.current_le {ts : List Token} {s : Stream} (h : (s.prepend ts).Ordered) :
    (s.prepend ts).current.span.stop ≤ s.current.span.stop := by
  cases ts with
  | nil => exact Location.le_refl _
  | cons t ts =>
    rw [Ordered, toList_prepend] at h
    exact (List.pairwise_append.1 h).2.2 t List.mem_cons_self s.current List.mem_cons_self

/-- The error concerns text up to the end of the current token, and a lexical error is
    the current token. -/
structure Reports (s : Stream) (e : ParseError) : Prop where
  stop_le : e.span.stop ≤ s.current.span.stop
  lex : ∀ err, e.kind = .lex err → s.current = ⟨.error err, e.span⟩

end Stream

/-! ### Errors of a parser -/

namespace Parser

variable {α β : Type}

/-- Where the parser fails in front of an ordered stream, with tokens `seen` behind it, the
    error is reported by what is left. -/
def Locates (seen : List Token) (p : Parser α) : Prop :=
  ∀ s : Stream, s.Ordered → (∀ t ∈ seen, t.span.stop ≤ s.current.span.stop) →
    ∀ e s', p s = .error e s' → s'.Reports e

section

variable {seen : List Token}

theorem locates_pure (a : α) : Locates seen (pure a : Parser α) := by
  intro s _ _ e s' h
  exact nomatch h

theorem locates_fail {kind : ParseError.Kind} {span : Span} {t : Token} (ht : t ∈ seen)
    (hstop : span.stop = t.span.stop) (hkind : ∀ e, kind ≠ .lex e) :
    Locates seen (fail kind span : Parser α) := by
  intro s _ hseen e s' h
  rw [fail_run] at h
  obtain ⟨rfl, rfl⟩ := EStateM.Result.error.inj h
  exact ⟨hstop ▸ hseen t ht, fun err herr => absurd herr (hkind err)⟩

theorem Locates.ite {c : Prop} [Decidable c] {p q : Parser α} (hp : Locates seen p)
    (hq : Locates seen q) : Locates seen (if c then p else q) := by
  by_cases hc : c
  · rwa [if_pos hc]
  · rwa [if_neg hc]

theorem Locates.peek {k : Token → Parser β} (h : ∀ t, Locates (t :: seen) (k t)) :
    Locates seen (peek >>= k) := by
  intro s hordered hseen e s' hrun
  rw [peek_bind] at hrun
  refine h s.current s hordered ?_ e s' hrun
  intro t ht
  rcases List.mem_cons.1 ht with rfl | ht
  · exact Location.le_refl _
  · exact hseen t ht

theorem locates_advance : Locates seen advance := by
  intro s _ _ e s' h
  rw [advance_eq] at h
  generalize (if s.current.isTerminal then s else s.tail) = next at h
  rcases next.clean_or_error with hclean | ⟨err, herr⟩
  · rw [bind_of_ok ((checked_eq_ok (u := ())).2 ⟨hclean, rfl⟩)] at h
    exact nomatch h
  · rw [bind_of_error (checked_of_error herr)] at h
    obtain ⟨rfl, rfl⟩ := EStateM.Result.error.inj h
    refine ⟨Location.le_refl _, ?_⟩
    intro err' hkind
    rw [← ParseError.Kind.lex.inj hkind, ← herr]

/-- What has been seen stays behind the current token. -/
theorem Built.seen_left {p : Parser α} (h : Built p) {s s' : Stream} (hs' : left (p s) = s')
    (hordered : s.Ordered) (hseen : ∀ t ∈ seen, t.span.stop ≤ s.current.span.stop) :
    s'.Ordered ∧ ∀ t ∈ seen, t.span.stop ≤ s'.current.span.stop := by
  obtain ⟨ts, hts⟩ := h.exists_prepend_left s
  rw [hs'] at hts
  subst hts
  exact ⟨hordered.of_prepend, fun t ht => Location.le_trans (hseen t ht) hordered.current_le⟩

theorem Locates.bind {p : Parser α} {k : α → Parser β} (hbuilt : Built p) (hp : Locates seen p)
    (hk : ∀ a, Locates seen (k a)) : Locates seen (p >>= k) := by
  intro s hordered hseen e s' h
  cases hrun : p s with
  | ok a s₁ =>
    rw [bind_of_ok hrun] at h
    obtain ⟨hordered₁, hseen₁⟩ := hbuilt.seen_left (congrArg left hrun) hordered hseen
    exact hk a s₁ hordered₁ hseen₁ e s' h
  | error e₁ s₁ =>
    rw [bind_of_error hrun] at h
    obtain ⟨rfl, rfl⟩ := EStateM.Result.error.inj h
    exact hp s hordered hseen _ _ hrun

theorem Locates.iterate {step : β → Parser (Option β)} (hbuilt : ∀ b, Built (step b))
    (hstep : ∀ b, Locates seen (step b)) (b : β) : Locates seen (iterate step b) := by
  intro s
  induction hsize : s.size using Nat.strongRecOn generalizing b s with
  | _ n ih =>
    intro hordered hseen e s' h
    rw [Parser.iterate] at h
    cases hrun : step b s with
    | error e₁ s₁ =>
      rw [hrun] at h
      obtain ⟨rfl, rfl⟩ := EStateM.Result.error.inj h
      exact hstep b s hordered hseen _ _ hrun
    | ok found s₁ =>
      rw [hrun] at h
      cases found with
      | none => cases h
      | some b' =>
        dsimp only at h
        split at h
        · rename_i hlt
          obtain ⟨hordered₁, hseen₁⟩ := (hbuilt b).seen_left (congrArg left hrun) hordered hseen
          exact ih _ (hsize ▸ hlt) b' s₁ rfl hordered₁ hseen₁ e s' h
        · cases h

theorem locates_markers : Locates seen markers := by
  have hbuilt := built_accept (.symbol .caret)
  have haccept : Locates seen (accept (.symbol .caret)) :=
    .peek fun _ => .ite (.bind .advance locates_advance fun _ => locates_pure true)
      (locates_pure false)
  refine .iterate (fun n => ?_) (fun n => ?_) 0
  · exact hbuilt.bind fun _ => .ite (.pure (some (n + 1))) (.pure none)
  · exact .bind hbuilt haccept fun _ => .ite (locates_pure (some (n + 1))) (locates_pure none)

theorem locates_marked (scope : Scope) : Locates seen (marked scope) := by
  refine .peek fun first => .bind built_markers locates_markers fun usage => .peek fun t => ?_
  obtain ⟨kind, span⟩ := t
  cases kind with
  | ident n =>
    have hname : (⟨.ident n, span⟩ : Token) ∈ (⟨.ident n, span⟩ : Token) :: first :: seen :=
      List.mem_cons_self
    refine .bind .advance locates_advance fun _ => .peek fun next => .ite ?_ ?_
    · -- the error goes from the first marker to the end of the name
      exact locates_fail (List.mem_cons_of_mem _ hname) rfl nofun
    · unfold resolve
      cases scope.find? n with
      | some decl => exact locates_pure _
      | none => exact locates_fail (List.mem_cons_of_mem _ hname) rfl nofun
  | _ => exact locates_fail List.mem_cons_self rfl nofun

theorem Sighted.locates {front : Option Token} {p : Parser α} (h : Sighted front seen p) :
    Locates seen p := by
  induction h with
  | pure a => exact locates_pure a
  | fail ht hkind => exact locates_fail ht rfl hkind
  | peek _ ih => exact .peek ih
  | advance _ => exact locates_advance
  | markers => exact locates_markers
  | marked scope _ => exact locates_marked scope
  | bind hp _ ihp ihk => exact .bind hp.built ihp ihk
  | iterate b hstep ih => exact .iterate (fun b => (hstep b).built) ih b

end

end Parser

/-! ### Errors of a reading -/

namespace Reading

theorem exists_prepend_rest (s : Stream) : ∃ ts, s = (ofStream s).rest.prepend ts := by
  fun_induction ofStream s with
  | case1 s heos => exact ⟨[], rfl⟩
  | case2 s heos e s' hitem =>
    have hleft := Parser.built_item.exists_prepend_left s
    rwa [hitem] at hleft
  | case3 s heos item s' hitem hlt later ih =>
    obtain ⟨ts, hts⟩ := Parser.built_item.exists_prepend_left s
    obtain ⟨us, hus⟩ := ih
    rw [hitem] at hts
    refine ⟨ts ++ us, ?_⟩
    rw [Stream.prepend_append, ← hus]
    exact hts
  | case4 s heos item s' hitem hlt =>
    have hleft := Parser.built_item.exists_prepend_left s
    rwa [hitem] at hleft

theorem size_rest_le (s : Stream) : (ofStream s).rest.size ≤ s.size := by
  obtain ⟨ts, hts⟩ := exists_prepend_rest s
  have hsize := congrArg Stream.size hts
  rw [Stream.size_prepend] at hsize
  omega

theorem reports_ofStream {s : Stream} (hordered : s.Ordered) {e : ParseError}
    (h : (ofStream s).error = some e) : (ofStream s).rest.Reports e := by
  have hitems : Parser.Locates [] Parser.item :=
    (Parser.sighted_item : Parser.Sighted none [] _).locates
  fun_induction ofStream s with
  | case1 s heos => exact nomatch h
  | case2 s heos e' s' hitem =>
    obtain rfl := Option.some.inj h
    exact hitems s hordered (by simp) _ _ hitem
  | case3 s heos item s' hitem hlt later ih =>
    obtain ⟨ts, hts⟩ := Parser.built_item.exists_prepend_left s
    rw [hitem] at hts
    exact ih (Stream.Ordered.of_prepend (hts ▸ hordered)) h
  | case4 s heos item s' hitem hlt => exact nomatch h

/-- An error that is met among the tokens `ts` does not depend on what comes behind them. -/
theorem error_of_prepend {r r' : Stream} {e : ParseError} {ts : List Token} (hne : ts ≠ [])
    (h : (ofStream (r.prepend ts)).error = some e)
    (hrest : r.size < (ofStream (r.prepend ts)).rest.size) :
    (ofStream (r'.prepend ts)).error = some e := by
  induction hlength : ts.length using Nat.strongRecOn generalizing ts with
  | _ n ih =>
    have hcurrent : (r.prepend ts).current = (r'.prepend ts).current := by
      obtain ⟨t, us, rfl⟩ := List.exists_cons_of_ne_nil hne
      rfl
    have hruns : Parser.Parallel r r' (Parser.item (r.prepend ts)) (Parser.item (r'.prepend ts)) :=
      Parser.built_item.parallel hne
    rw [ofStream] at h hrest ⊢
    rw [← hcurrent]
    by_cases heos : (r.prepend ts).current.kind = .eos
    · rw [if_pos heos] at h
      cases h
    · rw [if_neg heos] at h hrest ⊢
      generalize Parser.item (r.prepend ts) = x at h hrest hruns
      generalize Parser.item (r'.prepend ts) = x' at hruns ⊢
      cases hruns with
      | error e' hus => exact h
      | @ok item us hus =>
        have hsize : ∀ r : Stream,
            (r.prepend us).size < (r.prepend ts).size ↔ us.length < ts.length := by
          intro r
          rw [Stream.size_prepend, Stream.size_prepend]
          exact Nat.add_lt_add_iff_right
        simp only [hsize] at h hrest ⊢
        by_cases hlt : us.length < ts.length
        · rw [if_pos hlt] at h hrest ⊢
          exact ih _ (hlength ▸ hlt) hus h hrest rfl
        · rw [if_neg hlt] at h
          cases h
      | reached hreaches _ =>
        -- everything in front of `r` has been consumed, so it cannot be in front of the error
        have hle := hreaches.size_le
        cases x with
        | error e' s' => exact absurd hrest (Nat.not_lt.2 hle)
        | ok item s' =>
          dsimp only at h hrest
          by_cases hlt : s'.size < (r.prepend ts).size
          · rw [if_pos hlt] at hrest
            exact absurd hrest (Nat.not_lt.2 (Nat.le_trans (size_rest_le s') hle))
          · rw [if_neg hlt] at h
            cases h

/-- The tokens of a source are those that have been consumed and those that are left. -/
theorem exists_consumed (source : Source) :
    ∃ ts, source.tokens = ts ++ (ofSource source).rest.toList := by
  rw [← Stream.toList_ofSource]
  rcases (Stream.ofSource source).clean_or_error with hclean | ⟨e, he⟩
  · obtain ⟨ts, hts⟩ := exists_prepend_rest (Stream.ofSource source)
    refine ⟨ts, ?_⟩
    rw [ofSource_eq hclean, ← Stream.toList_prepend, ← hts]
  · refine ⟨[], ?_⟩
    rw [ofSource, Parser.checked_of_error he]
    rfl

theorem reports_ofSource {source : Source} {e : ParseError}
    (h : (ofSource source).error = some e) : (ofSource source).rest.Reports e := by
  rcases (Stream.ofSource source).clean_or_error with hclean | ⟨err, herr⟩
  · rw [ofSource_eq hclean] at h ⊢
    exact reports_ofStream (Stream.ordered_ofSource source) h
  · rw [ofSource, Parser.checked_of_error herr] at h ⊢
    obtain rfl := Option.some.inj h
    refine ⟨Location.le_refl _, ?_⟩
    intro err' hkind
    dsimp only at hkind ⊢
    rw [← ParseError.Kind.lex.inj hkind, ← herr]

theorem ofSource_congr {source source' : Source} (h : source.tokens = source'.tokens) :
    ofSource source = ofSource source' := by
  have hstream : Stream.ofSource source = Stream.ofSource source' := by
    apply Stream.eq_of_toList_eq
    rw [Stream.toList_ofSource, Stream.toList_ofSource, h]
  rw [ofSource, ofSource, hstream]

/-- A source with more than its terminal token starts with a token that is no error. -/
theorem clean_of_tokens {source : Source} {t : Token} {ts later : List Token}
    (h : source.tokens = ts ++ t :: later) (ht : t.isTerminal = false) :
    (Stream.ofSource source).Clean := by
  obtain ⟨front, hfront⟩ :
      ∃ front, source.tokens = [] ++ (Stream.ofSource source).current :: front :=
    ⟨_, (Stream.toList_ofSource source).symm⟩
  intro e he
  have hterminal : (Stream.ofSource source).current.isTerminal = true := by
    rw [Token.isTerminal, he]
    rfl
  obtain rfl := Source.later_eq_nil hfront hterminal
  rw [hfront, List.nil_append] at h
  have hmem : t ∈ [(Stream.ofSource source).current] := by
    rw [h]
    simp
  rw [List.mem_singleton.1 hmem, hterminal] at ht
  exact absurd ht (by decide)

/-- Something follows a token that is not terminal. -/
theorem exists_later {source : Source} {t : Token} {ts later : List Token}
    (h : source.tokens = ts ++ t :: later) (ht : t.isTerminal = false) :
    ∃ r : Stream, Stream.ofSource source = r.prepend (ts ++ [t]) ∧ later = r.toList := by
  cases later with
  | nil =>
    obtain ⟨last, hlast, hterminal⟩ := Stream.closed_ofSource source
    rw [Stream.toList_ofSource, h, List.getLast?_concat, Option.some.injEq] at hlast
    rw [← hlast, ht] at hterminal
    exact absurd hterminal (by decide)
  | cons next later =>
    refine ⟨Stream.of next later, ?_, rfl⟩
    apply Stream.eq_of_toList_eq
    rw [Stream.toList_ofSource, h, Stream.toList_prepend]
    simp

/-- Two sources that have the tokens up to the one that is current at the error in common
    have the error in common. -/
theorem error_of_common {source source' : Source} {e : ParseError} {t : Token}
    {ts later later' : List Token} (herror : (ofSource source).error = some e)
    (hrest : (ofSource source).rest.toList = t :: later)
    (htokens : source.tokens = ts ++ t :: later) (htokens' : source'.tokens = ts ++ t :: later') :
    (ofSource source').error = some e := by
  by_cases ht : t.isTerminal = true
  · -- the two sources have the same tokens
    obtain rfl := Source.later_eq_nil htokens ht
    obtain rfl := Source.later_eq_nil htokens' ht
    rwa [← ofSource_congr (htokens.trans htokens'.symm)]
  · rw [Bool.not_eq_true] at ht
    obtain ⟨r, hstream, rfl⟩ := exists_later htokens ht
    obtain ⟨r', hstream', rfl⟩ := exists_later htokens' ht
    rw [ofSource_eq (clean_of_tokens htokens ht), hstream] at herror hrest
    rw [ofSource_eq (clean_of_tokens htokens' ht), hstream']
    refine error_of_prepend (by simp) herror ?_
    have hsize := Stream.size_eq_length (ofStream (r.prepend (ts ++ [t]))).rest
    rw [hrest, List.length_cons, ← r.size_eq_length] at hsize
    omega

/-- A reading without an error ends in front of the end of the source. -/
theorem current_rest_of_ok {source : Source} (h : (ofSource source).error = none) :
    (ofSource source).rest.current.kind = .eos := by
  rcases (Stream.ofSource source).clean_or_error with hclean | ⟨e, he⟩
  · rw [ofSource_eq hclean] at h ⊢
    obtain ⟨-, -, -, heos, -⟩ := ofStream_ok (Stream.closed_ofSource source) h
    exact heos
  · rw [ofSource, Parser.checked_of_error he] at h
    cases h

end Reading

/-! ### Errors of a source -/

/-- An error is decided by the tokens of the source up to some index: the text that it
    concerns ends no later than the last of these tokens, and every source that starts with
    them gives the same error.  If the error is lexical, that token is the lexical error,
    and it is the last token of the source.  A source without an error ends in the end of
    the source, and this token alone is not consumed. -/
theorem Program.parse_error_decided (source : Source) :
    match parse source with
    | .error e =>
      ∃ i t, source.tokens[i]? = some t ∧ e.span.stop ≤ t.span.stop ∧
        (∀ source' : Source, source'.tokens.take (i + 1) = source.tokens.take (i + 1) →
          parse source' = .error e) ∧
        ∀ err, e.kind = .lex err →
          t = ⟨.error err, e.span⟩ ∧ source.tokens.length = i + 1
    | .ok _ =>
      ∃ ts span, source.tokens = ts ++ [⟨.eos, span⟩] ∧
        (Reading.ofSource source).rest.toList = [⟨.eos, span⟩] := by
  obtain ⟨ts, htokens⟩ := Reading.exists_consumed source
  cases herror : (Reading.ofSource source).error with
  | some e =>
    have hparse : ∀ source', (Reading.ofSource source').error = some e →
        parse source' = .error e := by
      intro source' h
      rw [parse, Reading.result, h]
    rw [hparse source herror]
    have hreports := Reading.reports_ofSource herror
    generalize hrest : (Reading.ofSource source).rest = rest at htokens hreports
    refine ⟨ts.length, rest.current, ?_, hreports.stop_le, ?_, ?_⟩
    · rw [htokens, List.getElem?_append_right (Nat.le_refl _), Nat.sub_self]
      rfl
    · intro source' htake
      apply hparse
      have hfront : source.tokens.take (ts.length + 1) = ts ++ [rest.current] := by
        rw [htokens, List.take_length_add_append]
        rfl
      rw [hfront] at htake
      have htokens' : source'.tokens =
          ts ++ rest.current :: source'.tokens.drop (ts.length + 1) := by
        rw [← List.take_append_drop (ts.length + 1) source'.tokens, htake]
        simp
      exact Reading.error_of_common herror (by rw [hrest]; rfl) htokens htokens'
    · intro err hkind
      have hcurrent := hreports.lex err hkind
      have hterminal : rest.current.isTerminal = true := by
        rw [hcurrent]
        rfl
      have hlater := Source.later_eq_nil htokens hterminal
      refine ⟨hcurrent, ?_⟩
      rw [htokens, List.length_append, Stream.toList, hlater]
      rfl
  | none =>
    have hparse : parse source = .ok (Program.ofItems (Reading.ofSource source).items) := by
      rw [parse, Reading.result, herror]
    have heos := Reading.current_rest_of_ok herror
    rw [hparse]
    generalize (Reading.ofSource source).rest = rest at htokens heos
    have hterminal : rest.current.isTerminal = true := by
      rw [Token.isTerminal, heos]
      rfl
    have hrest : rest.toList = [⟨.eos, rest.current.span⟩] := by
      rw [Stream.toList, Source.later_eq_nil htokens hterminal, ← heos]
    exact ⟨ts, rest.current.span, by rw [htokens, hrest], hrest⟩

end Shc
