import Shc.Proofs.ParserRun
import Shc.Proofs.Primitives

/-!
# One token of lookahead

As long as a parser is among the tokens `ts` it does the same whatever comes behind
them.  When the last of them is consumed the token behind them has been looked at, and a
lexical error there ends the run.  `Parallel r r' x x'` compares in this way a run in
front of `r` with a run of the same parser on the same tokens in front of `r'`.
-/

namespace Shc

theorem Stream.exists_prepend_tail (s : Stream) : ∃ ts, s = s.tail.prepend ts := by
  obtain ⟨current, later, size, rfl⟩ := s
  cases later with
  | nil => exact ⟨[], rfl⟩
  | cons next later =>
    refine ⟨[current], ?_⟩
    apply Stream.eq_of_toList_eq
    rfl

theorem Stream.clean_or_error (s : Stream) : s.Clean ∨ ∃ e, s.current.kind = .error e := by
  by_cases h : ∃ e, s.current.kind = .error e
  · exact .inr h
  · exact .inl fun e he => h ⟨e, he⟩

namespace Parser

variable {α β : Type}

/-- The tokens that are left, whether or not the parser succeeds. -/
def left : EStateM.Result ParseError Stream α → Stream
  | .ok _ s | .error _ s => s

/-! ### Consuming a token -/

theorem checked_of_error {s : Stream} {e : LexError} (h : s.current.kind = .error e) :
    checked s = .error ⟨.lex e, s.current.span⟩ s := by
  rw [checked, peek_bind, h]
  rfl

theorem bind_of_error {p : Parser α} {s s' : Stream} {e : ParseError} (h : p s = .error e s')
    (k : α → Parser β) : (p >>= k) s = .error e s' := by
  show EStateM.bind p k s = .error e s'
  simp [EStateM.bind, h]

/-- Consuming a token looks at the token that is then in front. -/
theorem advance_eq (s : Stream) :
    advance s =
      (checked >>= fun _ => pure s.current) (if s.current.isTerminal then s else s.tail) :=
  rfl

theorem left_advance (s : Stream) :
    left (advance s) = if s.current.isTerminal then s else s.tail := by
  rw [advance_eq]
  rcases Stream.clean_or_error (if s.current.isTerminal then s else s.tail) with hclean | ⟨e, he⟩
  · rw [bind_of_ok ((checked_eq_ok (u := ())).2 ⟨hclean, rfl⟩)]
    rfl
  · rw [bind_of_error (checked_of_error he)]
    rfl

/-! ### Nothing is given back -/

theorem exists_prepend_iterate {step : β → Parser (Option β)}
    (h : ∀ b s, ∃ ts, s = (left (step b s)).prepend ts) (b : β) (s : Stream) :
    ∃ ts, s = (left (iterate step b s)).prepend ts := by
  induction hsize : s.size using Nat.strongRecOn generalizing b s with
  | _ n ih =>
    have hstep := h b s
    cases hrun : step b s with
    | error e s' =>
      rw [hrun] at hstep
      rwa [iterate_of_error hrun]
    | ok found s' =>
      rw [hrun] at hstep
      cases found with
      | none => rwa [iterate_of_none hrun]
      | some b' =>
        by_cases hlt : s'.size < s.size
        · rw [iterate_of_some hrun hlt]
          obtain ⟨ts, hts⟩ := hstep
          obtain ⟨us, hus⟩ := ih _ (hsize ▸ hlt) b' s' rfl
          refine ⟨ts ++ us, ?_⟩
          rw [Stream.prepend_append, ← hus]
          exact hts
        · rwa [iterate_of_still hrun hlt]

/-- What a parser leaves is the end of what it was given. -/
theorem Built.exists_prepend_left {p : Parser α} (h : Built p) (s : Stream) :
    ∃ ts, s = (left (p s)).prepend ts := by
  induction h generalizing s with
  | pure a => exact ⟨[], rfl⟩
  | fail kind span => exact ⟨[], rfl⟩
  | peek => exact ⟨[], rfl⟩
  | advance =>
    rw [left_advance]
    split
    · exact ⟨[], rfl⟩
    · exact s.exists_prepend_tail
  | @bind α β p k _ _ ihp ihk =>
    have hp := ihp s
    cases hrun : p s with
    | ok a s' =>
      rw [hrun] at hp
      rw [bind_of_ok hrun]
      obtain ⟨ts, hts⟩ := hp
      obtain ⟨us, hus⟩ := ihk a s'
      refine ⟨ts ++ us, ?_⟩
      rw [Stream.prepend_append, ← hus]
      exact hts
    | error e s' =>
      rw [hrun] at hp
      rwa [bind_of_error hrun]
  | iterate b _ ih => exact exists_prepend_iterate ih b s

/-- A parser leaves no more tokens than it was given. -/
theorem Built.size_left_le {p : Parser α} (h : Built p) (s : Stream) :
    (left (p s)).size ≤ s.size := by
  obtain ⟨ts, hts⟩ := h.exists_prepend_left s
  have hsize := congrArg Stream.size hts
  rw [Stream.size_prepend] at hsize
  omega

/-! ### Two runs -/

/-- A run that has consumed everything in front of `r`.  If a lexical error is what comes
    first in `r`, the run has ended there. -/
structure Reaches (r : Stream) (x : EStateM.Result ParseError Stream α) : Prop where
  size_le : (left x).size ≤ r.size
  error : ∀ e, r.current.kind = .error e → x = .error ⟨.lex e, r.current.span⟩ r

/-- Two runs on the same tokens, one of them in front of `r` and the other one in front of
    `r'`: they are at the same token in front of these and have come to the same, or both
    have consumed everything in front of these. -/
inductive Parallel (r r' : Stream) :
    EStateM.Result ParseError Stream α → EStateM.Result ParseError Stream α → Prop where
  | ok (a : α) {ts : List Token} : ts ≠ [] →
      Parallel r r' (.ok a (r.prepend ts)) (.ok a (r'.prepend ts))
  | error (e : ParseError) {ts : List Token} : ts ≠ [] →
      Parallel r r' (.error e (r.prepend ts)) (.error e (r'.prepend ts))
  | reached {x x' : EStateM.Result ParseError Stream α} :
      Reaches r x → Reaches r' x' → Parallel r r' x x'

section

variable {r r' : Stream}

/-- A run that goes on from where everything in front of `r` has been consumed. -/
theorem Reaches.bind {x : EStateM.Result ParseError Stream α} (h : Reaches r x) {p : Parser α}
    {s : Stream} (hrun : p s = x) {k : α → Parser β} (hk : ∀ a, Built (k a)) :
    Reaches r ((p >>= k) s) := by
  subst hrun
  constructor
  · have hle := h.size_le
    cases hrun : p s with
    | ok a s' =>
      rw [hrun] at hle
      rw [bind_of_ok hrun]
      exact Nat.le_trans ((hk a).size_left_le s') hle
    | error e s' =>
      rw [hrun] at hle
      rwa [bind_of_error hrun]
  · intro e he
    exact bind_of_error (h.error e he) k

theorem Reaches.iterate {step : β → Parser (Option β)} {b : β} {s : Stream}
    (h : Reaches r (step b s)) (hstep : ∀ b, Built (step b)) :
    Reaches r (iterate step b s) := by
  constructor
  · have hle := h.size_le
    cases hrun : step b s with
    | error e s' =>
      rw [hrun] at hle
      rwa [iterate_of_error hrun]
    | ok found s' =>
      rw [hrun] at hle
      cases found with
      | none => rwa [iterate_of_none hrun]
      | some b' =>
        by_cases hlt : s'.size < s.size
        · rw [iterate_of_some hrun hlt]
          exact Nat.le_trans ((Built.iterate b' hstep).size_left_le s') hle
        · rwa [iterate_of_still hrun hlt]
  · intro e he
    exact iterate_of_error (h.error e he)

/-- The last token in front of `r` is consumed. -/
theorem reaches_advance {t : Token} (ht : t.isTerminal = false) :
    Reaches r (advance (r.cons t)) := by
  constructor
  · rw [left_advance, Stream.current_cons, ht, Stream.tail_cons]
    exact Nat.le_refl _
  · intro e he
    rw [advance_eq, Stream.current_cons, ht, Stream.tail_cons]
    exact bind_of_error (checked_of_error he) _

theorem parallel_checked {t : Token} {ts : List Token} (u : α) :
    Parallel r r' ((checked >>= fun _ => pure u) (r.prepend (t :: ts)))
      ((checked >>= fun _ => pure u) (r'.prepend (t :: ts))) := by
  have hne : t :: ts ≠ [] := List.cons_ne_nil t ts
  rcases Stream.clean_or_error (r.prepend (t :: ts)) with hclean | ⟨e, he⟩
  · have hclean' : (r'.prepend (t :: ts)).Clean := hclean
    rw [bind_of_ok ((checked_eq_ok (u := ())).2 ⟨hclean, rfl⟩),
      bind_of_ok ((checked_eq_ok (u := ())).2 ⟨hclean', rfl⟩)]
    exact .ok u hne
  · have he' : (r'.prepend (t :: ts)).current.kind = .error e := he
    rw [bind_of_error (checked_of_error he), bind_of_error (checked_of_error he')]
    exact .error _ hne

theorem parallel_advance {ts : List Token} (hne : ts ≠ []) :
    Parallel r r' (advance (r.prepend ts)) (advance (r'.prepend ts)) := by
  match ts, hne with
  | t :: ts, _ =>
    by_cases ht : t.isTerminal = true
    · -- a terminal token stays in front
      have hstays : ∀ r : Stream, advance (r.prepend (t :: ts)) =
          (checked >>= fun _ => pure t) (r.prepend (t :: ts)) := by
        intro r
        rw [advance_eq, Stream.prepend_cons, Stream.current_cons, if_pos ht]
      rw [hstays, hstays]
      exact parallel_checked t
    · have ht' : t.isTerminal = false := by simpa using ht
      cases ts with
      | nil => exact .reached (reaches_advance ht') (reaches_advance ht')
      | cons next ts =>
        have hgoes : ∀ r : Stream, advance (r.prepend (t :: next :: ts)) =
            (checked >>= fun _ => pure t) (r.prepend (next :: ts)) := by
          intro r
          rw [advance_eq, Stream.prepend_cons, Stream.current_cons, if_neg ht, Stream.tail_cons]
        rw [hgoes, hgoes]
        exact parallel_checked t

theorem Parallel.iterate {step : β → Parser (Option β)} (hstep : ∀ b, Built (step b))
    (h : ∀ b {ts : List Token}, ts ≠ [] →
      Parallel r r' (step b (r.prepend ts)) (step b (r'.prepend ts)))
    (b : β) {ts : List Token} (hne : ts ≠ []) :
    Parallel r r' (iterate step b (r.prepend ts)) (iterate step b (r'.prepend ts)) := by
  induction hlength : ts.length using Nat.strongRecOn generalizing b ts with
  | _ n ih =>
    have hround := h b hne
    generalize hx : step b (r.prepend ts) = x at hround
    generalize hx' : step b (r'.prepend ts) = x' at hround
    cases hround with
    | reached hreaches hreaches' =>
      subst hx hx'
      exact .reached (hreaches.iterate hstep) (hreaches'.iterate hstep)
    | error e hus =>
      rw [iterate_of_error hx, iterate_of_error hx']
      exact .error e hus
    | @ok found us hus =>
      cases found with
      | none =>
        rw [iterate_of_none hx, iterate_of_none hx']
        exact .ok b hus
      | some b' =>
        -- the two rests do not count: a round consumes as many tokens on both sides
        have hsize : ∀ r : Stream,
            (r.prepend us).size < (r.prepend ts).size ↔ us.length < ts.length := by
          intro r
          rw [Stream.size_prepend, Stream.size_prepend]
          exact Nat.add_lt_add_iff_right
        by_cases hlt : us.length < ts.length
        · rw [iterate_of_some hx ((hsize r).2 hlt), iterate_of_some hx' ((hsize r').2 hlt)]
          exact ih _ (hlength ▸ hlt) b' hus rfl
        · rw [iterate_of_still hx (mt (hsize r).1 hlt), iterate_of_still hx' (mt (hsize r').1 hlt)]
          exact .ok b' hus

/-- A parser does the same in front of different rests until it comes to them. -/
theorem Built.parallel {p : Parser α} (h : Built p) {ts : List Token} (hne : ts ≠ []) :
    Parallel r r' (p (r.prepend ts)) (p (r'.prepend ts)) := by
  induction h generalizing ts with
  | pure a => exact .ok a hne
  | fail kind span => exact .error _ hne
  | peek =>
    match ts, hne with
    | t :: ts, hne => exact .ok t hne
  | advance => exact parallel_advance hne
  | @bind α β p k _ hk ihp ihk =>
    have hfirst := ihp hne
    generalize hx : p (r.prepend ts) = x at hfirst
    generalize hx' : p (r'.prepend ts) = x' at hfirst
    cases hfirst with
    | reached hreaches hreaches' => exact .reached (hreaches.bind hx hk) (hreaches'.bind hx' hk)
    | error e hus =>
      rw [bind_of_error hx, bind_of_error hx']
      exact .error e hus
    | ok a hus =>
      rw [bind_of_ok hx, bind_of_ok hx']
      exact ihk a hus
  | iterate b hstep ih => exact .iterate hstep (fun b _ hts => ih b hts) b hne

/-- A parser that consumes exactly the tokens `ts` fails where a lexical error follows them. -/
theorem Built.error_of_ok {p : Parser α} (h : Built p) {ts : List Token} (hne : ts ≠ []) {a : α}
    (hok : p (r.prepend ts) = .ok a r) {e : LexError} (he : r'.current.kind = .error e) :
    p (r'.prepend ts) = .error ⟨.lex e, r'.current.span⟩ r' := by
  have hruns : Parallel r r' (p (r.prepend ts)) (p (r'.prepend ts)) := h.parallel hne
  rw [hok] at hruns
  generalize p (r'.prepend ts) = x' at hruns
  generalize hx : EStateM.Result.ok a r = x at hruns
  cases hruns with
  | reached _ hreaches => exact hreaches.error e he
  | error e' hus => exact nomatch hx
  | @ok b us hus =>
    -- tokens would be left that the first run has consumed
    obtain ⟨-, hstream⟩ := EStateM.Result.ok.inj hx
    have hsize := congrArg Stream.size hstream
    rw [Stream.size_prepend] at hsize
    have hpos := List.length_pos_iff.2 hus
    omega

end

end Parser

end Shc
