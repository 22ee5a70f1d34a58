import Shc.Parse.Program

/-!
# Running parsers

What the primitive parsers do to the tokens in front of them.  Every statement
about a parser is about two streams, the one before and the one after, and the
second is always a rest of the first: `prepend` puts the consumed tokens back.

Two directions are needed of each primitive.  Read backwards, a success says which
tokens were consumed; this needs a stream that ends in a terminal token, since the
last token of a stream stays in front when it is consumed.  Read forwards, tokens
of the right kinds give a success, if the token behind them is no lexical error.
-/

namespace Shc

open Token (Kind)

/-! ### Streams -/

namespace Stream

/-- The stream with one token put in front. -/
def cons (t : Token) (s : Stream) : Stream :=
  of t s.toList

def prepend : List Token → Stream → Stream
  | [], s => s
  | t :: ts, s => cons t (prepend ts s)

@[simp] theorem input_tokens (s : Stream) : Input.tokens s = s :=
  rfl

@[simp] theorem toList_of (t : Token) (ts : List Token) : (of t ts).toList = t :: ts :=
  rfl

@[simp] theorem current_of (t : Token) (ts : List Token) : (of t ts).current = t :=
  rfl

@[simp] theorem toList_cons (t : Token) (s : Stream) : (cons t s).toList = t :: s.toList :=
  rfl

@[simp] theorem current_cons (t : Token) (s : Stream) : (cons t s).current = t :=
  rfl

@[simp] theorem tail_cons (t : Token) (s : Stream) : (cons t s).tail = s := by
  rw [cons, toList, tail_of_cons, of_current_later]

@[simp] theorem prepend_nil (s : Stream) : prepend [] s = s :=
  rfl

@[simp] theorem prepend_cons (t : Token) (ts : List Token) (s : Stream) :
    prepend (t :: ts) s = cons t (prepend ts s) :=
  rfl

theorem toList_prepend (ts : List Token) (s : Stream) :
    (prepend ts s).toList = ts ++ s.toList := by
  induction ts with
  | nil => rfl
  | cons t ts ih => simp [ih]

theorem prepend_append (ts us : List Token) (s : Stream) :
    prepend (ts ++ us) s = prepend ts (prepend us s) := by
  induction ts with
  | nil => rfl
  | cons t ts ih => simp [ih]

/-- A stream is known by its tokens. -/
theorem eq_of_toList_eq {s s' : Stream} (h : s.toList = s'.toList) : s = s' := by
  rw [← of_current_later s, ← of_current_later s']
  simp only [toList, List.cons.injEq] at h
  rw [h.1, h.2]

theorem size_eq_length (s : Stream) : s.size + 1 = s.toList.length := by
  simp [toList, s.size_eq]

theorem size_prepend (ts : List Token) (s : Stream) :
    (prepend ts s).size = ts.length + s.size := by
  have h := size_eq_length (prepend ts s)
  rw [toList_prepend, List.length_append, ← size_eq_length s] at h
  omega

theorem size_cons (t : Token) (s : Stream) : (cons t s).size = s.size + 1 := by
  have h := size_prepend [t] s
  simp only [List.length_singleton] at h
  rw [Nat.add_comm]
  exact h

/-- The last token of the stream is terminal. -/
def Closed (s : Stream) : Prop :=
  ∃ t, s.toList.getLast? = some t ∧ t.isTerminal = true

theorem closed_of_prepend {ts : List Token} {s : Stream} (h : (prepend ts s).Closed) :
    s.Closed := by
  obtain ⟨t, hlast, hterminal⟩ := h
  refine ⟨t, ?_, hterminal⟩
  rw [toList_prepend, List.getLast?_append] at hlast
  simpa [toList] using hlast

/-- Consuming a token that is not terminal leaves the tokens behind it. -/
theorem Closed.eq_prepend_tail {s : Stream} (h : s.Closed) (hcur : s.current.isTerminal = false) :
    s = prepend [s.current] s.tail := by
  obtain ⟨t, hlast, hterminal⟩ := h
  apply eq_of_toList_eq
  rw [toList_prepend, ← of_current_later s]
  cases hlater : s.later with
  | nil =>
    -- the only token would be the terminal one
    simp only [toList, hlater, List.getLast?_singleton, Option.some.injEq] at hlast
    rw [← hlast, hcur] at hterminal
    exact absurd hterminal (by decide)
  | cons next later => simp [tail_of_cons]

/-- The tokens `ts` lead from one stream to another, in which a terminal token is
    still to come. -/
structure Consumes (s : Stream) (ts : List Token) (s' : Stream) : Prop where
  eq_prepend : s = prepend ts s'
  closed : s'.Closed

theorem Consumes.refl {s : Stream} (h : s.Closed) : s.Consumes [] s :=
  ⟨rfl, h⟩

theorem Consumes.trans {s s' s'' : Stream} {ts us : List Token} (h : s.Consumes ts s')
    (h' : s'.Consumes us s'') : s.Consumes (ts ++ us) s'' :=
  ⟨by rw [prepend_append, ← h'.eq_prepend, h.eq_prepend], h'.closed⟩

theorem Consumes.current_eq {s s' : Stream} {t : Token} {ts : List Token}
    (h : s.Consumes (t :: ts) s') : s.current = t := by
  rw [h.eq_prepend, prepend_cons, current_cons]

def Clean (s : Stream) : Prop :=
  ∀ e, s.current.kind ≠ .error e

end Stream

def Token.Proper (ts : List Token) : Prop :=
  ∀ t ∈ ts, t.isTerminal = false

theorem Stream.clean_cons {t : Token} (ht : t.isTerminal = false) (s : Stream) :
    (s.cons t).Clean := by
  intro e he
  rw [Stream.current_cons] at he
  simp [Token.isTerminal, he, Kind.isTerminal] at ht

theorem Stream.Clean.prepend {ts : List Token} {s : Stream} (hs : s.Clean)
    (hts : Token.Proper ts) : (Stream.prepend ts s).Clean := by
  cases ts with
  | nil => exact hs
  | cons t ts => exact Stream.clean_cons (hts t List.mem_cons_self) _

/-! ### Openings -/

/-- There is no room, or what is inside is parsed by something of which `P` holds. -/
inductive Opening.Leads {ι : Type} (P : ι → Prop) : Opening Stream ParseError ι → Prop where
  | shut : Leads P .shut
  | into {inner : ι} : P inner → Leads P (.into inner)

/-! ### Sequencing -/

namespace Parser

variable {α β : Type}

theorem bind_eq_ok {p : Parser α} {k : α → Parser β} {s s'' : Stream} {b : β} :
    (p >>= k) s = .ok b s'' ↔ ∃ a s', p s = .ok a s' ∧ k a s' = .ok b s'' := by
  show EStateM.bind p k s = .ok b s'' ↔ _
  unfold EStateM.bind
  cases p s with
  | ok a s' =>
    constructor
    · intro h
      exact ⟨a, s', rfl, h⟩
    · rintro ⟨a', t, hp, hk⟩
      simp only [EStateM.Result.ok.injEq] at hp
      obtain ⟨rfl, rfl⟩ := hp
      exact hk
  | error e s' => simp

theorem bind_of_ok {p : Parser α} {s s' : Stream} {a : α} (h : p s = .ok a s')
    (k : α → Parser β) : (p >>= k) s = k a s' := by
  show EStateM.bind p k s = k a s'
  simp [EStateM.bind, h]

theorem map_eq_ok {p : Parser α} {f : α → β} {s s' : Stream} {b : β} :
    (f <$> p) s = .ok b s' ↔ ∃ a, p s = .ok a s' ∧ f a = b := by
  show EStateM.map f p s = .ok b s' ↔ _
  unfold EStateM.map
  cases p s with
  | ok a s'' =>
    simp only [EStateM.Result.ok.injEq]
    constructor
    · rintro ⟨rfl, rfl⟩
      exact ⟨a, ⟨rfl, rfl⟩, rfl⟩
    · rintro ⟨a', ⟨rfl, rfl⟩, rfl⟩
      exact ⟨rfl, rfl⟩
  | error e s'' => simp

theorem map_of_ok {p : Parser α} {s s' : Stream} {a : α} (h : p s = .ok a s') (f : α → β) :
    (f <$> p) s = .ok (f a) s' :=
  map_eq_ok.2 ⟨a, h, rfl⟩

@[simp] theorem pure_run (a : α) (s : Stream) : (pure a : Parser α) s = .ok a s :=
  rfl

theorem pure_eq_ok {a b : α} {s s' : Stream} :
    (pure a : Parser α) s = .ok b s' ↔ a = b ∧ s = s' := by
  rw [pure_run, EStateM.Result.ok.injEq]

@[simp] theorem peek_bind (k : Token → Parser β) (s : Stream) :
    (peek >>= k) s = k s.current s :=
  rfl

@[simp] theorem fail_run (kind : ParseError.Kind) (span : Span) (s : Stream) :
    (fail kind span : Parser α) s = .error ⟨kind, span⟩ s :=
  rfl

@[simp] theorem fail_bind (kind : ParseError.Kind) (span : Span) (k : α → Parser β) (s : Stream) :
    ((fail kind span : Parser α) >>= k) s = .error ⟨kind, span⟩ s :=
  rfl

@[simp] theorem unexpected_run (expected : String) (s : Stream) :
    (unexpected expected : Parser α) s =
      .error ⟨.unexpected expected s.current.kind, s.current.span⟩ s :=
  rfl

@[simp] theorem tooDeep_run (s : Stream) :
    (tooDeep : Parser α) s = .error ⟨.nestingTooDeep, s.current.span⟩ s :=
  rfl

/-! ### Single tokens -/

theorem checked_eq_ok {s s' : Stream} {u : Unit} : checked s = .ok u s' ↔ s.Clean ∧ s' = s := by
  unfold checked Stream.Clean
  rw [peek_bind]
  cases hkind : s.current.kind <;> simp [eq_comm]

/-- Consuming a token that is not terminal checks the one behind it. -/
theorem advance_run {s : Stream} (h : s.current.isTerminal = false) :
    advance s = (checked >>= fun _ => pure s.current) s.tail := by
  show (checked >>= fun _ => pure s.current)
    (if s.current.isTerminal then s else s.tail) = _
  rw [h]
  rfl

theorem advance_cons {t : Token} {s : Stream} (ht : t.isTerminal = false) (hs : s.Clean) :
    advance (s.cons t) = .ok t s := by
  rw [advance_run ht, Stream.tail_cons, bind_of_ok ((checked_eq_ok (u := ())).2 ⟨hs, rfl⟩)]
  rfl

theorem advance_ok {s s' : Stream} {t : Token} (hs : s.Closed)
    (hcur : s.current.isTerminal = false) (h : advance s = .ok t s') :
    t = s.current ∧ s.Consumes [t] s' := by
  rw [advance_run hcur, bind_eq_ok] at h
  obtain ⟨u, s'', hchecked, hpure⟩ := h
  obtain ⟨-, rfl⟩ := checked_eq_ok.1 hchecked
  obtain ⟨rfl, rfl⟩ := pure_eq_ok.1 hpure
  have hpre := hs.eq_prepend_tail hcur
  exact ⟨rfl, hpre, Stream.closed_of_prepend (hpre ▸ hs)⟩

/-- A token of a known kind is consumed with the place where it stands. -/
theorem advance_ok_of_kind {s s' : Stream} {t : Token} {kind : Kind} (hs : s.Closed)
    (hkind : s.current.kind = kind) (hproper : kind.isTerminal = false)
    (h : advance s = .ok t s') : s.Consumes [⟨kind, s.current.span⟩] s' := by
  have hcur : s.current.isTerminal = false := by rw [Token.isTerminal, hkind, hproper]
  obtain ⟨rfl, hcons⟩ := advance_ok hs hcur h
  have htoken : s.current = ⟨kind, s.current.span⟩ := by rw [← hkind]
  rwa [← htoken]

theorem accept_of_ne {kind : Kind} {s : Stream} (h : s.current.kind ≠ kind) :
    accept kind s = .ok false s := by
  simp [accept, h]

theorem accept_cons {kind : Kind} {span : Span} {s : Stream} (hproper : kind.isTerminal = false)
    (hs : s.Clean) : accept kind (s.cons ⟨kind, span⟩) = .ok true s := by
  rw [accept, peek_bind, Stream.current_cons, if_pos rfl]
  exact bind_of_ok (advance_cons (t := ⟨kind, span⟩) hproper hs) _

theorem accept_ok_true {kind : Kind} {s s' : Stream} (hs : s.Closed)
    (hproper : kind.isTerminal = false) (h : accept kind s = .ok true s') :
    ∃ span, s.Consumes [⟨kind, span⟩] s' := by
  simp only [accept, peek_bind] at h
  by_cases hkind : s.current.kind = kind
  · rw [if_pos hkind, bind_eq_ok] at h
    obtain ⟨t, s'', hadvance, hpure⟩ := h
    simp only [pure_run, EStateM.Result.ok.injEq, true_and] at hpure
    subst hpure
    exact ⟨_, advance_ok_of_kind hs hkind hproper hadvance⟩
  · simp [hkind] at h

theorem accept_ok_false {kind : Kind} {s s' : Stream} (h : accept kind s = .ok false s') :
    s' = s ∧ s.current.kind ≠ kind := by
  simp only [accept, peek_bind] at h
  by_cases hkind : s.current.kind = kind
  · rw [if_pos hkind, bind_eq_ok] at h
    obtain ⟨t, s'', hadvance, hpure⟩ := h
    simp at hpure
  · simp only [hkind, if_false, pure_run, EStateM.Result.ok.injEq, true_and] at h
    exact ⟨h.symm, hkind⟩

theorem expect_cons {kind : Kind} {what : String} {span : Span} {s : Stream}
    (hproper : kind.isTerminal = false) (hs : s.Clean) :
    expect kind what (s.cons ⟨kind, span⟩) = .ok () s := by
  rw [expect, peek_bind, Stream.current_cons, if_pos rfl]
  exact bind_of_ok (advance_cons (t := ⟨kind, span⟩) hproper hs) _

theorem expect_ok {kind : Kind} {what : String} {s s' : Stream} {u : Unit} (hs : s.Closed)
    (hproper : kind.isTerminal = false) (h : expect kind what s = .ok u s') :
    ∃ span, s.Consumes [⟨kind, span⟩] s' := by
  simp only [expect, peek_bind] at h
  by_cases hkind : s.current.kind = kind
  · rw [if_pos hkind, bind_eq_ok] at h
    obtain ⟨t, s'', hadvance, hpure⟩ := h
    simp only [pure_run, EStateM.Result.ok.injEq, true_and] at hpure
    subst hpure
    exact ⟨_, advance_ok_of_kind hs hkind hproper hadvance⟩
  · simp [hkind] at h

theorem name_cons {what n : String} {span : Span} {s : Stream} (hs : s.Clean) :
    name what (s.cons ⟨.ident n, span⟩) = .ok (n, span) s := by
  simp only [name, peek_bind, Stream.current_cons]
  exact bind_of_ok (advance_cons (t := ⟨.ident n, span⟩) rfl hs) _

theorem name_ok {what n : String} {span : Span} {s s' : Stream} (hs : s.Closed)
    (h : name what s = .ok (n, span) s') : s.Consumes [⟨.ident n, span⟩] s' := by
  simp only [name, peek_bind] at h
  generalize hkind : s.current.kind = kind at h
  split at h
  · rw [bind_eq_ok] at h
    obtain ⟨t, s'', hadvance, hpure⟩ := h
    simp only [pure_run, EStateM.Result.ok.injEq, Prod.mk.injEq] at hpure
    obtain ⟨⟨rfl, rfl⟩, rfl⟩ := hpure
    exact advance_ok_of_kind hs hkind rfl hadvance
  · simp at h

/-! ### The loop -/

section

variable {σ ε : Type} [Input σ ε] {step : β → EStateM ε σ (Option β)} {b b' : β} {s s' : σ}

theorem iterate_of_error {e : ε} (h : step b s = .error e s') :
    iterate step b s = .error e s' := by
  rw [iterate, h]

theorem iterate_of_none (h : step b s = .ok none s') : iterate step b s = .ok b s' := by
  rw [iterate, h]

theorem iterate_of_some (h : step b s = .ok (some b') s')
    (hlt : (Input.tokens s').size < (Input.tokens s).size) :
    iterate step b s = iterate step b' s' := by
  rw [iterate, h]
  exact if_pos hlt

/-- A round that consumes nothing is the last one. -/
theorem iterate_of_still (h : step b s = .ok (some b') s')
    (hlt : ¬ (Input.tokens s').size < (Input.tokens s).size) :
    iterate step b s = .ok b' s' := by
  rw [iterate, h]
  exact if_neg hlt

end

/-- What holds of no round, and of one round in front of some others, holds of the
    whole loop, if the loop ends without consuming anything. -/
theorem iterate_ok_induction {step : β → Parser (Option β)}
    {motive : β → Stream → β → Stream → Prop}
    (stop : ∀ b s s', step b s = .ok none s' → s' = s)
    (refl : ∀ b s, motive b s b s)
    (round : ∀ b s b' s' b'' s'', step b s = .ok (some b') s' → motive b' s' b'' s'' →
      motive b s b'' s'')
    {b b' : β} {s s' : Stream} (h : iterate step b s = .ok b' s') : motive b s b' s' := by
  induction hsize : s.size using Nat.strongRecOn generalizing b s with
  | _ n ih =>
    cases hstep : step b s with
    | error e s'' =>
      rw [iterate_of_error hstep] at h
      cases h
    | ok found s'' =>
      cases found with
      | none =>
        rw [iterate_of_none hstep, EStateM.Result.ok.injEq] at h
        obtain ⟨rfl, rfl⟩ := h
        rw [stop _ _ _ hstep]
        exact refl b s
      | some b'' =>
        by_cases hlt : s''.size < s.size
        · rw [iterate_of_some hstep hlt] at h
          exact round _ _ _ _ _ _ hstep (ih _ (hsize ▸ hlt) h rfl)
        · rw [iterate_of_still hstep hlt, EStateM.Result.ok.injEq] at h
          obtain ⟨rfl, rfl⟩ := h
          exact round _ _ _ _ _ _ hstep (refl _ _)

theorem acceptLoop_of_ne {kind : Kind} {more : β → Parser (Option β)} {b : β} {s : Stream}
    (h : s.current.kind ≠ kind) :
    iterate (fun b => do if ← accept kind then more b else return none) b s = .ok b s :=
  iterate_of_none (bind_of_ok (accept_of_ne h) _)

theorem acceptLoop_cons {kind : Kind} {more : β → Parser (Option β)} {b b' : β} {span : Span}
    {s s' : Stream} (hproper : kind.isTerminal = false) (hs : s.Clean)
    (hmore : more b s = .ok (some b') s') (hsize : s'.size ≤ s.size) :
    iterate (fun b => do if ← accept kind then more b else return none) b
      (s.cons ⟨kind, span⟩) =
    iterate (fun b => do if ← accept kind then more b else return none) b' s' := by
  have hlt : s'.size < (s.cons ⟨kind, span⟩).size := by
    rw [Stream.size_cons]
    omega
  refine iterate_of_some ?_ hlt
  rw [bind_of_ok (accept_cons hproper hs), if_pos rfl]
  exact hmore

/-- The loops that go on as long as they find a token of one kind. -/
theorem acceptLoop_ok_induction {kind : Kind} {more : β → Parser (Option β)}
    {motive : β → Stream → β → Stream → Prop} (hproper : kind.isTerminal = false)
    (hsome : ∀ b s s', more b s ≠ .ok none s')
    (refl : ∀ b s, s.Closed → motive b s b s)
    (round : ∀ {b s span s₁ b' s₂ b'' s₃}, s.Consumes [⟨kind, span⟩] s₁ →
      more b s₁ = .ok (some b') s₂ → (s₂.Closed → motive b' s₂ b'' s₃) → motive b s b'' s₃)
    {b b' : β} {s s' : Stream} (hs : s.Closed)
    (h : iterate (fun b => do if ← accept kind then more b else return none) b s = .ok b' s') :
    motive b s b' s' := by
  refine iterate_ok_induction (motive := fun b s b' s' => s.Closed → motive b s b' s')
    ?_ refl ?_ h hs
  · intro b s s' hstep
    obtain ⟨found, s₁, haccept, hrest⟩ := bind_eq_ok.1 hstep
    cases found with
    | true =>
      simp only [if_true] at hrest
      exact absurd hrest (hsome b s₁ s')
    | false =>
      simp only [Bool.false_eq_true, if_false, pure_run, EStateM.Result.ok.injEq,
        true_and] at hrest
      rw [← hrest, (accept_ok_false haccept).1]
  · intro b s b' s' b'' s'' hstep hrest hs
    obtain ⟨found, s₁, haccept, hmore⟩ := bind_eq_ok.1 hstep
    cases found with
    | false => simp at hmore
    | true =>
      simp only [if_true] at hmore
      obtain ⟨span, hcons⟩ := accept_ok_true hs hproper haccept
      exact round hcons hmore hrest

end Parser
end Shc
