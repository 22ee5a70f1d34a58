import Shc.Proofs.Complete.Expr
import Shc.Proofs.Lookahead

/-!
# Parsers make progress

A parser is a function, which does not say how often it consumes a token, and its loop ends
of itself where a round consumes nothing.  A run, as `Evaluates` has it, follows a parser step
by step instead and lists the tokens that it consumes, one for each step that does.  There is no
rule for consuming a terminal token, since that would leave the token in front, and none for
going on with a loop behind a round that consumed nothing.  A parser that has a run does
neither, and its loops end without a guard.

`Progresses front least p` says that `p` has a run in front of every closed stream, and that
a run that succeeds consumes at least `least` tokens.  As in `Sighted`, `front` is the
current token where that is known: only a token that has been looked at is consumed, and it
was found not to be terminal.  Every parser is covered by following its definition once.
-/

namespace Shc.Parser

open Token (Kind)

variable {α β : Type}

/-! ### Runs -/

/-- The parser, followed step by step in front of a stream, consumes these tokens one after
    the other and comes to this result. -/
inductive Evaluates : {α : Type} → Parser α → Stream → List Token →
    EStateM.Result ParseError Stream α → Prop where
  | pure {α : Type} (a : α) (s : Stream) : Evaluates (Pure.pure a) s [] (.ok a s)
  | fail {α : Type} (kind : ParseError.Kind) (span : Span) (s : Stream) :
      Evaluates (Parser.fail kind span : Parser α) s [] (.error ⟨kind, span⟩ s)
  | peek (s : Stream) : Evaluates Parser.peek s [] (.ok s.current s)
  | advance {t : Token} {s : Stream} : t.isTerminal = false → s.Clean →
      Evaluates Parser.advance (s.cons t) [t] (.ok t s)
  | advance_error {t : Token} {s : Stream} {e : LexError} : t.isTerminal = false →
      s.current.kind = .error e →
      Evaluates Parser.advance (s.cons t) [t] (.error ⟨.lex e, s.current.span⟩ s)
  | bind {α β : Type} {p : Parser α} {k : α → Parser β} {s s' : Stream} {ts us : List Token}
      {a : α} {r : EStateM.Result ParseError Stream β} :
      Evaluates p s ts (.ok a s') → Evaluates (k a) s' us r → Evaluates (p >>= k) s (ts ++ us) r
  | bind_error {α β : Type} {p : Parser α} {k : α → Parser β} {s s' : Stream}
      {ts : List Token} {e : ParseError} :
      Evaluates p s ts (.error e s') → Evaluates (p >>= k) s ts (.error e s')
  | round {β : Type} {step : β → Parser (Option β)} {b b' : β} {s s' : Stream}
      {ts us : List Token} {r : EStateM.Result ParseError Stream β} :
      Evaluates (step b) s ts (.ok (some b') s') → ts ≠ [] →
      Evaluates (Parser.iterate step b') s' us r →
      Evaluates (Parser.iterate step b) s (ts ++ us) r
  | last {β : Type} {step : β → Parser (Option β)} {b : β} {s s' : Stream} {ts : List Token} :
      Evaluates (step b) s ts (.ok none s') → Evaluates (Parser.iterate step b) s ts (.ok b s')
  | round_error {β : Type} {step : β → Parser (Option β)} {b : β} {s s' : Stream}
      {ts : List Token} {e : ParseError} :
      Evaluates (step b) s ts (.error e s') → Evaluates (Parser.iterate step b) s ts (.error e s')

/-- What a run consumes is what was in front of the tokens that it leaves. -/
theorem Evaluates.eq_prepend {p : Parser α} {s : Stream} {ts : List Token}
    {r : EStateM.Result ParseError Stream α} (h : Evaluates p s ts r) :
    s = (left r).prepend ts := by
  induction h with
  | pure => rfl
  | fail => rfl
  | peek => rfl
  | advance => rfl
  | advance_error => rfl
  | bind _ _ ihp ihk => rw [Stream.prepend_append, ← ihk]; exact ihp
  | bind_error _ ih => exact ih
  | round _ _ _ ihstep ihrest => rw [Stream.prepend_append, ← ihrest]; exact ihstep
  | last _ ih => exact ih
  | round_error _ ih => exact ih

/-- No terminal token is consumed. -/
theorem Evaluates.proper {p : Parser α} {s : Stream} {ts : List Token}
    {r : EStateM.Result ParseError Stream α} (h : Evaluates p s ts r) : Token.Proper ts := by
  induction h with
  | pure => exact Token.proper_nil
  | fail => exact Token.proper_nil
  | peek => exact Token.proper_nil
  | advance ht _ => exact Token.proper_cons.2 ⟨ht, Token.proper_nil⟩
  | advance_error ht _ => exact Token.proper_cons.2 ⟨ht, Token.proper_nil⟩
  | bind _ _ ihp ihk => exact Token.proper_append.2 ⟨ihp, ihk⟩
  | bind_error _ ih => exact ih
  | round _ _ _ ihstep ihrest => exact Token.proper_append.2 ⟨ihstep, ihrest⟩
  | last _ ih => exact ih
  | round_error _ ih => exact ih

theorem advance_cons_of_error {t : Token} {s : Stream} {e : LexError} (ht : t.isTerminal = false)
    (he : s.current.kind = .error e) :
    advance (s.cons t) = .error ⟨.lex e, s.current.span⟩ s := by
  rw [advance_run ht, Stream.tail_cons, bind_of_error (checked_of_error he)]

theorem Evaluates.size_lt {p : Parser α} {s s' : Stream} {ts : List Token} {a : α}
    (h : Evaluates p s ts (.ok a s')) (hne : ts ≠ []) : s'.size < s.size := by
  have hsize := congrArg Stream.size h.eq_prepend
  rw [Stream.size_prepend] at hsize
  have hpos := List.length_pos_iff.2 hne
  dsimp only [left] at hsize
  omega

/-- A run comes to what the parser answers: the guard of a loop makes no difference to it. -/
theorem Evaluates.eval {p : Parser α} {s : Stream} {ts : List Token}
    {r : EStateM.Result ParseError Stream α} (h : Evaluates p s ts r) : p s = r := by
  induction h with
  | pure => rfl
  | fail => rfl
  | peek => rfl
  | advance ht hs => exact advance_cons ht hs
  | advance_error ht he => exact advance_cons_of_error ht he
  | bind _ _ ihp ihk => rw [bind_of_ok ihp, ihk]
  | bind_error _ ih => exact bind_of_error ih _
  | round hstep hne _ ihstep ihrest => rw [iterate_of_some ihstep (hstep.size_lt hne), ihrest]
  | last _ ih => exact iterate_of_none ih
  | round_error _ ih => exact iterate_of_error ih

/-- There is one run at most. -/
theorem Evaluates.unique {p : Parser α} {s : Stream} {ts ts' : List Token}
    {r r' : EStateM.Result ParseError Stream α} (h : Evaluates p s ts r)
    (h' : Evaluates p s ts' r') : ts = ts' ∧ r = r' := by
  have hr : r = r' := h.eval.symm.trans h'.eval
  subst hr
  have htokens := congrArg Stream.toList (h.eq_prepend.symm.trans h'.eq_prepend)
  rw [Stream.toList_prepend, Stream.toList_prepend] at htokens
  exact ⟨List.append_cancel_right htokens, rfl⟩

/-! ### Progress -/

/-- The parser has a run in front of every closed stream, where the current token is `front`
    if that is known, and a run that succeeds consumes at least `least` tokens. -/
def Progresses (front : Option Token) (least : Nat) (p : Parser α) : Prop :=
  ∀ s : Stream, s.Closed → (∀ t ∈ front, s.current = t) →
    ∃ ts, Evaluates p s ts (p s) ∧ ∀ a s', p s = .ok a s' → least ≤ ts.length

/-- Every round of a loop has a run, and a round behind which the loop goes on consumes a
    token. -/
def Rounds (step : β → Parser (Option β)) : Prop :=
  ∀ b (s : Stream), s.Closed →
    ∃ ts, Evaluates (step b) s ts (step b s) ∧ ∀ b' s', step b s = .ok (some b') s' → ts ≠ []

section

variable {front : Option Token} {least : Nat}

theorem progresses_pure (a : α) : Progresses front 0 (pure a : Parser α) :=
  fun s _ _ => ⟨[], .pure a s, fun _ _ _ => Nat.zero_le _⟩

theorem progresses_fail (kind : ParseError.Kind) (span : Span) :
    Progresses front least (fail kind span : Parser α) :=
  fun s _ _ => ⟨[], .fail kind span s, fun _ _ h => nomatch h⟩

theorem Progresses.peek {k : Token → Parser β} (h : ∀ t, Progresses (some t) least (k t)) :
    Progresses front least (peek >>= k) := by
  intro s hs _
  obtain ⟨ts, hrun, hleast⟩ := h s.current s hs (by simp)
  exact ⟨[] ++ ts, .bind (.peek s) hrun, hleast⟩

/-- Only a token that is known not to be terminal is consumed. -/
theorem progresses_advance {t : Token} (ht : t.isTerminal = false) :
    Progresses (some t) 1 advance := by
  intro s hs hfront
  obtain rfl : s.current = t := hfront t rfl
  have hcons : s = s.tail.cons s.current := hs.eq_prepend_tail ht
  refine ⟨[s.current], ?_, fun _ _ _ => Nat.le_refl 1⟩
  rcases s.tail.clean_or_error with hclean | ⟨e, he⟩
  · have hrun := Evaluates.advance ht hclean
    rwa [← hrun.eval, ← hcons] at hrun
  · have hrun := Evaluates.advance_error ht he
    rwa [← hrun.eval, ← hcons] at hrun

/-- A sequence consumes what its parts do. -/
theorem Progresses.bind_add {p : Parser α} {k : α → Parser β} {m n : Nat}
    (hp : Progresses front m p) (hk : ∀ a, Progresses none n (k a)) :
    Progresses front (m + n) (p >>= k) := by
  intro s hs hfront
  obtain ⟨ts, hrun, hleast⟩ := hp s hs hfront
  cases heval : p s with
  | error e s' =>
    rw [heval] at hrun
    rw [bind_of_error heval]
    exact ⟨ts, .bind_error hrun, fun _ _ h => nomatch h⟩
  | ok a s' =>
    rw [heval] at hrun
    rw [bind_of_ok heval]
    have hs' : s'.Closed := Stream.closed_of_prepend (hrun.eq_prepend ▸ hs)
    obtain ⟨us, hrun', hleast'⟩ := hk a s' hs' (by simp)
    refine ⟨ts ++ us, .bind hrun hrun', fun b s'' h => ?_⟩
    rw [List.length_append]
    exact Nat.add_le_add (hleast a s' heval) (hleast' b s'' h)

theorem Progresses.mono {p : Parser α} {m n : Nat} (h : Progresses front m p) (hle : n ≤ m) :
    Progresses front n p := by
  intro s hs hfront
  obtain ⟨ts, hrun, hleast⟩ := h s hs hfront
  exact ⟨ts, hrun, fun a s' heval => Nat.le_trans hle (hleast a s' heval)⟩

/-- The first part of a sequence consumes enough. -/
theorem Progresses.first {p : Parser α} {k : α → Parser β} {m n : Nat}
    (hp : Progresses front m p) (hk : ∀ a, Progresses none n (k a)) :
    Progresses front m (p >>= k) :=
  (hp.bind_add hk).mono (Nat.le_add_right m n)

/-- What follows the first part of a sequence consumes enough. -/
theorem Progresses.bind {p : Parser α} {k : α → Parser β} {m n : Nat}
    (hp : Progresses front m p) (hk : ∀ a, Progresses none n (k a)) :
    Progresses front n (p >>= k) :=
  (hp.bind_add hk).mono (Nat.le_add_left n m)

theorem Progresses.ite_of {c : Prop} [Decidable c] {p q : Parser α}
    (hp : c → Progresses front least p) (hq : ¬ c → Progresses front least q) :
    Progresses front least (if c then p else q) := by
  by_cases hc : c
  · rw [if_pos hc]
    exact hp hc
  · rw [if_neg hc]
    exact hq hc

theorem Progresses.ite {c : Prop} [Decidable c] {p q : Parser α}
    (hp : Progresses front least p) (hq : Progresses front least q) :
    Progresses front least (if c then p else q) :=
  .ite_of (fun _ => hp) fun _ => hq

theorem Progresses.map {p : Parser α} (h : Progresses front least p) (f : α → β) :
    Progresses front least (do return f (← p)) :=
  h.first fun a => progresses_pure (f a)

/-- A loop has a run if its rounds do: each round that is not the last one leaves fewer
    tokens. -/
theorem Rounds.progresses {step : β → Parser (Option β)} (h : Rounds step) (b : β) :
    Progresses front 0 (iterate step b) := by
  intro s hs hfront
  clear hfront
  suffices hrun : ∃ ts r, Evaluates (iterate step b) s ts r by
    obtain ⟨ts, r, hrun⟩ := hrun
    exact ⟨ts, hrun.eval ▸ hrun, fun _ _ _ => Nat.zero_le _⟩
  induction hsize : s.size using Nat.strongRecOn generalizing b s with
  | _ n ih =>
    obtain ⟨ts, hrun, hne⟩ := h b s hs
    cases heval : step b s with
    | error e s' =>
      rw [heval] at hrun
      exact ⟨ts, _, .round_error hrun⟩
    | ok found s' =>
      rw [heval] at hrun
      cases found with
      | none => exact ⟨ts, _, .last hrun⟩
      | some b' =>
        have hs' : s'.Closed := Stream.closed_of_prepend (hrun.eq_prepend ▸ hs)
        obtain ⟨us, r, hrun'⟩ := ih _ (hsize ▸ hrun.size_lt (hne b' s' heval)) b' s' hs' rfl
        exact ⟨ts ++ us, r, .round hrun (hne b' s' heval) hrun'⟩

/-- The loops that look at the current token to see whether they go on. -/
theorem rounds_peek {more : β → Token → Parser (Option β)}
    (h : ∀ b t, more b t = pure none ∨ Progresses (some t) 1 (more b t)) :
    Rounds fun b => peek >>= more b := by
  intro b s hs
  change ∃ ts, Evaluates (peek >>= more b) s ts ((peek >>= more b) s) ∧ _
  rcases h b s.current with hstop | hmore
  · have heval : (peek >>= more b) s = .ok none s := by rw [peek_bind, hstop, pure_run]
    have hrun : Evaluates (more b s.current) s [] (.ok none s) := hstop ▸ .pure none s
    refine ⟨[] ++ [], by rw [heval]; exact .bind (.peek s) hrun, fun b' s' heval' => ?_⟩
    cases heval.symm.trans heval'
  · obtain ⟨ts, hrun, hleast⟩ := hmore s hs (by simp)
    refine ⟨[] ++ ts, .bind (.peek s) hrun, fun b' s' heval => ?_⟩
    exact List.length_pos_iff.1 (hleast _ s' heval)

/-! ### Single tokens -/

theorem progresses_unexpected (expected : String) :
    Progresses front least (unexpected expected : Parser α) :=
  .peek fun _ => progresses_fail _ _

theorem progresses_tooDeep : Progresses front least (tooDeep : Parser α) :=
  .peek fun _ => progresses_fail _ _

/-- A token of a kind that is not terminal is not terminal. -/
theorem isTerminal_of_kind_eq {t : Token} {kind : Kind} (hkind : kind.isTerminal = false)
    (h : t.kind = kind) : t.isTerminal = false := by
  rw [Token.isTerminal, h, hkind]

/-- A token that means something to `f` is not terminal if a terminal one means nothing. -/
theorem isTerminal_of_eq_some {f : Kind → Option α} (heos : f .eos = none)
    (herror : ∀ e, f (.error e) = none) {t : Token} {a : α} (h : f t.kind = some a) :
    t.isTerminal = false := by
  cases hkind : t.kind with
  | eos =>
    rw [hkind, heos] at h
    cases h
  | error e =>
    rw [hkind, herror] at h
    cases h
  | _ => exact isTerminal_of_kind_eq rfl hkind

theorem progresses_accept {kind : Kind} (hkind : kind.isTerminal = false) :
    Progresses front 0 (accept kind) :=
  .peek fun _ => .ite_of
    (fun ht => ((progresses_advance (isTerminal_of_kind_eq hkind ht)).bind fun _ =>
      progresses_pure true))
    fun _ => progresses_pure false

theorem progresses_expect {kind : Kind} (hkind : kind.isTerminal = false) (what : String) :
    Progresses front 1 (expect kind what) :=
  .peek fun _ => .ite_of
    (fun ht => (progresses_advance (isTerminal_of_kind_eq hkind ht)).first fun _ =>
      progresses_pure ())
    fun _ => progresses_unexpected what

theorem progresses_name (what : String) : Progresses front 1 (name what) := by
  refine .peek fun t => ?_
  obtain ⟨kind, span⟩ := t
  cases kind with
  | ident n => exact (progresses_advance rfl).first fun _ => progresses_pure (n, span)
  | _ => exact progresses_unexpected what

/-- The loops that go on as long as they find a token of one kind. -/
theorem rounds_accept {kind : Kind} (hkind : kind.isTerminal = false)
    {more : β → Parser (Option β)} (h : ∀ b, Progresses none 0 (more b)) :
    Rounds fun b => do if ← accept kind then more b else return none := by
  have hstep : (fun b => do if ← accept kind then more b else return none) = fun b =>
      peek >>= fun t => if t.kind = kind then advance >>= fun _ => more b else pure none := by
    funext b s
    simp only [accept, bind_assoc, peek_bind]
    split
    · rw [bind_assoc]
      rfl
    · rfl
  rw [hstep]
  refine rounds_peek fun b t => ?_
  by_cases ht : t.kind = kind
  · right
    rw [if_pos ht]
    exact (progresses_advance (isTerminal_of_kind_eq hkind ht)).first fun _ => h b
  · exact .inl (if_neg ht)

end

/-! ### Rounds

The rounds of the loops of the grammar, each by its name. -/

/-- One more marker. -/
def markerRound (count : Nat) : Parser (Option Nat) := do
  if ← accept (.symbol .caret) then return some (count + 1) else return none

/-- One more parameter. -/
def paramRound (scope : Scope) : Parser (Option Scope) := do
  if ← accept (.symbol .comma) then return some (← param scope) else return none

/-- One more element of a list with commas. -/
def commaRound (p : Parser α) (found : List α) : Parser (Option (List α)) := do
  if ← accept (.symbol .comma) then return some (found ++ [← p]) else return none

/-- One more operator of a layer, with its right operand. -/
def operatorRound (layer : Layer) (operand : Parser Value) (left : Value) :
    Parser (Option Value) := do
  match operator? layer (← peek).kind with
  | none => return none
  | some op =>
    let _ ← advance
    return some (left.extend op (← operand))

/-- One more statement. -/
def statementRound (statement : Scope → Parser Body) : Body → Parser (Option Body) :=
  fun (scope, found) => do
    let kind := (← peek).kind
    if kind = .symbol .rbrace ∨ kind = .eos then return none
    let (scope, new) ← statement scope
    return some (scope, found ++ new)

theorem markers_eq : markers = iterate markerRound 0 :=
  rfl

theorem params_eq : params = (do
    if (← peek).kind = .symbol .rparen then return Scope.empty
    iterate paramRound (← param Scope.empty)) :=
  rfl

theorem commaList_eq (p : Parser α) :
    commaList p = (do iterate (commaRound p) [← p]) :=
  rfl

theorem chain_eq (layer : Layer) (operand : Parser Value) :
    chain layer operand = (do
      let loc := (← peek).loc
      iterate (operatorRound layer operand) (.leaf (← operand) loc)) :=
  rfl

theorem statements_eq_iterate (statement : Scope → Parser Body) (scope : Scope) :
    statements statement scope = iterate (statementRound statement) (scope, []) :=
  rfl

/-! ### Types and parameters -/

section

variable {front : Option Token}

theorem rounds_markerRound : Rounds markerRound :=
  rounds_accept rfl fun count => progresses_pure (some (count + 1))

theorem progresses_markers : Progresses front 0 markers := by
  rw [markers_eq]
  exact rounds_markerRound.progresses 0

theorem progresses_type : Progresses front 1 type := by
  refine progresses_markers.bind fun depth => .peek fun t => ?_
  cases hbase : base? t.kind with
  | some base =>
    exact (progresses_advance (isTerminal_of_eq_some rfl (fun _ => rfl) hbase)).first fun _ =>
      progresses_pure (⟨base, depth⟩ : Ty)
  | none => exact progresses_unexpected _

theorem progresses_param (scope : Scope) : Progresses front 1 (param scope) := by
  refine (progresses_name _).first (n := 0) ?_
  rintro ⟨n, span⟩
  refine (progresses_expect rfl _).bind fun _ => progresses_type.bind fun type => ?_
  cases scope.declareParam? ⟨n, type, span.start⟩ with
  | some grown => exact progresses_pure grown
  | none => exact progresses_fail _ _

theorem rounds_paramRound : Rounds paramRound :=
  rounds_accept rfl fun scope => ((progresses_param scope).bind fun grown =>
    progresses_pure (some grown))

theorem progresses_params : Progresses front 0 params := by
  rw [params_eq]
  exact .peek fun _ => .ite (progresses_pure Scope.empty)
    ((progresses_param _).bind fun scope => rounds_paramRound.progresses scope)

/-! ### Expressions -/

theorem progresses_resolve (scope : Scope) (n : String) (span : Span) (usage : Nat)
    (loc : Location) : Progresses front 0 (resolve scope n span usage loc) := by
  unfold resolve
  cases scope.find? n with
  | some decl => exact progresses_pure (⟨decl, usage, loc⟩ : Reference)
  | none => exact progresses_fail _ _

theorem progresses_marked (scope : Scope) : Progresses front 1 (marked scope) := by
  refine .peek fun first => progresses_markers.bind fun usage => .peek fun t => ?_
  obtain ⟨kind, span⟩ := t
  cases kind with
  | ident n =>
    exact (progresses_advance rfl).first fun _ => .peek fun _ => .ite (progresses_fail _ _)
      (progresses_resolve scope n span usage first.loc)
  | _ => exact progresses_fail _ _

theorem rounds_commaRound {p : Parser α} (h : Progresses none 1 p) : Rounds (commaRound p) :=
  rounds_accept rfl fun found => h.bind fun a => progresses_pure (some (found ++ [a]))

theorem rounds_operatorRound (layer : Layer) {p : Parser Value} (h : Progresses none 1 p) :
    Rounds (operatorRound layer p) := by
  refine rounds_peek fun left t => ?_
  cases hop : operator? layer t.kind with
  | none => exact .inl rfl
  | some op =>
    right
    exact (progresses_advance (isTerminal_of_eq_some rfl (fun _ => rfl) hop)).first fun _ =>
      h.bind fun right => progresses_pure (some (left.extend op right))

end

/-- The operands of a layer of binary operators: what the tighter layers make of the unary
    operands. -/
def operand (scope : Scope) (room : Nat) (tighter : List Layer) : Parser Value :=
  tighter.foldr chain (do return .unary (← unary scope room))

section

variable {p : Parser Unary} (h : ∀ front, Progresses front 1 p) {front : Option Token}

include h

theorem progresses_foldr (layers : List Layer) :
    Progresses front 1 (layers.foldr chain (do return .unary (← p))) := by
  induction layers generalizing front with
  | nil => exact (h front).map Value.unary
  | cons layer layers ih =>
    rw [List.foldr_cons, chain_eq]
    exact .peek fun t => Progresses.first ih fun first =>
      (rounds_operatorRound layer ih).progresses (Value.leaf first t.loc)

theorem progresses_exprOf : Progresses front 1 (exprOf p) :=
  Progresses.map (progresses_foldr h _) Expr.single

theorem progresses_argsOf : Progresses front 1 (argsOf p) := by
  have hclose : ∀ args : List Expr,
      Progresses none 1 (do expect (.symbol .rparen) "')' after arguments"; return args) :=
    fun args => (progresses_expect rfl _).first fun _ => progresses_pure args
  refine .peek fun _ => .ite ((progresses_pure []).bind hclose) ?_
  rw [commaList_eq]
  exact Progresses.bind (Progresses.bind (progresses_exprOf h) fun first =>
    (rounds_commaRound (progresses_exprOf h)).progresses [first]) hclose

end

theorem Progresses.enter {ι : Type} {P : ι → Prop} {inner : Opening Stream ParseError ι}
    (hinner : inner.Leads P) {front : Option Token} {least : Nat} {k : ι → Parser α}
    (hk : ∀ a, P a → Progresses front least (k a)) : Progresses front least (inner.enter k) := by
  cases hinner with
  | shut => exact progresses_tooDeep
  | into h => exact hk _ h

section

variable {inner : Opening Stream ParseError (Parser Unary)}
  (hinner : inner.Leads fun p => ∀ front, Progresses front 1 p) {front : Option Token}
  (scope : Scope)

include hinner

theorem progresses_factor : Progresses front 1 (factor scope inner) := by
  refine .peek fun t => ?_
  obtain ⟨kind, span⟩ := t
  cases kind with
  | int value => exact (progresses_advance rfl).map fun _ => Factor.const value span.start
  | char c => exact (progresses_advance rfl).map fun _ => Factor.const c.toNat span.start
  | bool b =>
    exact (progresses_advance rfl).map fun _ => Factor.const (if b then 1 else 0) span.start
  | string value => exact (progresses_advance rfl).map fun _ => Factor.string value span.start
  | symbol symbol =>
    cases symbol with
    | lparen =>
      exact .enter hinner fun p h => (progresses_advance rfl).first fun _ =>
        (progresses_exprOf h).bind fun e => (progresses_expect rfl _).map fun _ =>
          Factor.paren e span.start
    | _ => exact progresses_unexpected _
  | ident n =>
    refine (progresses_advance rfl).first fun _ =>
      (progresses_accept rfl).bind (n := 0) fun _ => .ite ?_ ?_
    · exact ((Progresses.enter hinner fun p h => progresses_argsOf h).mono (Nat.zero_le 1)).map
        fun args => Factor.call (.placeholder n span.start) args span.start
    · exact (progresses_resolve scope n span 0 span.start).map Factor.var
  | keyword => exact progresses_unexpected _
  | eos => exact progresses_unexpected _
  | error => exact progresses_unexpected _

theorem progresses_unaryWith : Progresses front 1 (unaryWith scope inner) := by
  refine .peek fun t => ?_
  cases hsign : sign? t.kind with
  | some sign =>
    exact .enter hinner fun p h =>
      (progresses_advance (isTerminal_of_eq_some rfl (fun _ => rfl) hsign)).first fun _ =>
        (h none).map fun operand => Unary.signed sign operand t.loc
  | none =>
    refine .ite ?_ ?_
    · exact (progresses_marked scope).map fun r => Unary.factor (.var r)
    · exact (progresses_factor hinner scope).map Unary.factor

end

section

variable {front : Option Token} (scope : Scope) (room : Nat)

theorem progresses_unary : Progresses front 1 (unary scope room) := by
  induction room generalizing front with
  | zero => exact progresses_unaryWith .shut scope
  | succ room ih => exact progresses_unaryWith (.into fun _ => ih) scope

theorem progresses_operand (tighter : List Layer) :
    Progresses front 1 (operand scope room tighter) :=
  progresses_foldr (fun _ => progresses_unary scope room) tighter

theorem progresses_expr : Progresses front 1 (expr scope room) :=
  progresses_exprOf fun _ => progresses_unary scope room

theorem progresses_args : Progresses front 1 (args scope room) := by
  cases room with
  | zero => exact progresses_tooDeep
  | succ room => exact progresses_argsOf fun _ => progresses_unary scope room

end

/-! ### Statements -/

section

variable {front : Option Token}

theorem progresses_condition {e : Parser Expr} (h : ∀ front, Progresses front 1 e)
    (keyword : Keyword) : Progresses front 1 (condition keyword e) :=
  .peek fun t => (progresses_expect rfl _).first fun _ => (h none).bind fun e =>
    (progresses_expect rfl _).map fun _ => Factor.paren e t.loc

theorem progresses_semicolon : Progresses front 1 semicolon :=
  progresses_expect rfl _

theorem progresses_declaration {e : Parser Expr} (h : ∀ front, Progresses front 1 e) (n : String)
    (loc : Location) : Progresses front 1 (declaration e n loc) := by
  refine (progresses_expect rfl _).first fun _ => progresses_type.bind fun type =>
    (progresses_accept rfl).bind (n := 1) fun found => ?_
  have hend : Progresses none 1 (do
      let t ← peek
      if t.kind = .symbol .comma then fail .multipleDeclarations t.span
      semicolon
      return (⟨n, type, loc⟩ : Variable)) :=
    .peek fun _ => .ite
      (.bind (m := 0) (progresses_fail _ _) fun _ =>
        progresses_semicolon.map fun _ => (⟨n, type, loc⟩ : Variable))
      (progresses_semicolon.map fun _ => (⟨n, type, loc⟩ : Variable))
  exact .ite ((h none).bind fun _ => hend) hend

theorem progresses_assignment {v : Parser Value} (h : ∀ front, Progresses front 1 v)
    (target : Reference) (loc : Location) : Progresses front 1 (assignment v target loc) :=
  (progresses_expect rfl _).first fun _ => (h none).bind fun value =>
    progresses_semicolon.map fun _ => Statement.assign ⟨some target, value, loc⟩ loc

theorem progresses_ret {e : Parser Expr} (h : ∀ front, Progresses front 1 e) (loc : Location) :
    Progresses front 1 (ret e loc) := by
  have hend : ∀ value : Option Expr,
      Progresses none 1 (do semicolon; return Statement.ret value loc) :=
    fun value => progresses_semicolon.map fun _ => Statement.ret value loc
  exact .peek fun t => .ite ((progresses_pure none).bind hend) (((h (some t)).map some).bind hend)

end

section

variable {front : Option Token} (scope : Scope) (room : Nat)

theorem progresses_value : Progresses front 1 (valueOf (unary scope room)) :=
  progresses_operand scope room Layer.all

theorem progresses_named :
    Progresses front 1 (named scope (unary scope room) (args scope room)) := by
  refine (progresses_name _).first (n := 0) ?_
  rintro ⟨n, span⟩
  refine .peek fun t => ?_
  obtain ⟨kind, tokenSpan⟩ := t
  cases kind with
  | symbol symbol =>
    cases symbol with
    | colon =>
      refine (progresses_declaration (fun _ => progresses_expr scope room) n span.start).bind
        fun v => ?_
      cases scope.declareLocal? v with
      | some grown => exact progresses_pure (grown, [Statement.declare v span.start])
      | none => exact progresses_fail _ _
    | lparen =>
      exact (progresses_advance rfl).bind fun _ => (progresses_args scope room).bind fun args =>
        progresses_semicolon.bind fun _ =>
          progresses_pure (scope, [Statement.call (.placeholder n span.start) args span.start])
    | eq =>
      exact (progresses_resolve scope n span 0 span.start).bind fun target =>
        (progresses_assignment (fun _ => progresses_value scope room) target span.start).bind
          fun statement => progresses_pure (scope, [statement])
    | _ => exact progresses_unexpected _
  | _ => exact progresses_unexpected _

theorem progresses_flat : Progresses front 1 (flatAt room scope) := by
  refine .peek fun t => ?_
  obtain ⟨kind, span⟩ := t
  cases kind with
  | keyword word =>
    cases word with
    | breakKw =>
      exact (progresses_advance rfl).first fun _ => progresses_semicolon.map fun _ =>
        (scope, [Statement.brk span.start])
    | continueKw =>
      exact (progresses_advance rfl).first fun _ => progresses_semicolon.map fun _ =>
        (scope, [Statement.cont span.start])
    | returnKw =>
      exact (progresses_advance rfl).first fun _ =>
        (progresses_ret (fun _ => progresses_expr scope room) span.start).map fun statement =>
          (scope, [statement])
    | _ => exact progresses_unexpected _
  | symbol symbol =>
    cases symbol with
    | semicolon => exact (progresses_advance rfl).map fun _ => (scope, [])
    | caret =>
      exact (progresses_marked scope).first fun target =>
        (progresses_assignment (fun _ => progresses_value scope room) target span.start).map
          fun statement => (scope, [statement])
    | _ => exact progresses_unexpected _
  | ident n => exact progresses_named scope room
  | _ => exact progresses_unexpected _

end

section

variable {p : Scope → Parser Body} (h : ∀ scope front, Progresses front 1 (p scope))
  {front : Option Token}

include h

theorem rounds_statementRound : Rounds (statementRound p) := by
  have hstep : statementRound p = fun b => peek >>= fun t =>
      if t.kind = .symbol .rbrace ∨ t.kind = .eos then pure none
      else p b.1 >>= fun body => pure (some (body.1, b.2 ++ body.2)) := rfl
  rw [hstep]
  refine rounds_peek fun b t => ?_
  by_cases ht : t.kind = .symbol .rbrace ∨ t.kind = .eos
  · exact .inl (if_pos ht)
  · right
    rw [if_neg ht]
    exact (h b.1 _).map fun body => some (body.1, b.2 ++ body.2)

theorem progresses_statements (scope : Scope) : Progresses front 0 (statements p scope) := by
  rw [statements_eq_iterate]
  exact (rounds_statementRound h).progresses (scope, [])

theorem progresses_block (scope : Scope) : Progresses front 1 (block p scope) :=
  (progresses_statements h scope).bind fun body => (progresses_expect rfl _).map fun _ => body

theorem progresses_body (scope : Scope) : Progresses front 1 (body p scope) :=
  (progresses_accept rfl).bind fun _ => .ite (progresses_block h scope) (h scope _)

end

/-- What is parsed on the level consumes a token before it succeeds. -/
structure ProgressesLevel (level : Level Stream ParseError) : Prop where
  expr : ∀ scope front, Progresses front 1 (level.expr scope)
  statement : ∀ scope front, Progresses front 1 (level.statement scope)

section

variable {level : Level Stream ParseError} (h : ProgressesLevel level) {front : Option Token}
  (scope : Scope) (loc : Location)

include h

theorem progresses_branch : Progresses front 1 (branch level scope loc) := by
  refine (progresses_condition (h.expr scope) _).first fun condition =>
    (progresses_body h.statement scope).bind (n := 0) ?_
  rintro ⟨grown, yes⟩
  refine (progresses_accept rfl).bind fun _ => .ite ?_
    (progresses_pure (grown, [Statement.branch condition yes [] loc]))
  refine (progresses_body h.statement grown).bind ?_
  rintro ⟨grown', no⟩
  exact progresses_pure (grown', [Statement.branch condition yes no loc])

theorem progresses_loop : Progresses front 1 (loop level scope loc) := by
  refine (progresses_condition (h.expr scope) _).first fun condition =>
    (progresses_body h.statement scope).bind (n := 0) ?_
  rintro ⟨grown, inner⟩
  exact progresses_pure (grown, [Statement.loop condition inner loc])

end

theorem progresses_statementWith {flat : Scope → Parser Body}
    {inner : Opening Stream ParseError (Level Stream ParseError)} {front : Option Token}
    {scope : Scope} (hflat : ∀ front, Progresses front 1 (flat scope))
    (hinner : inner.Leads ProgressesLevel) :
    Progresses front 1 (statementWith flat inner scope) := by
  refine .peek fun t => ?_
  split
  · rename_i hkind
    exact .enter hinner fun _ h => (progresses_advance (isTerminal_of_kind_eq rfl hkind)).first
      fun _ => progresses_block h.statement scope
  · rename_i hkind
    exact .enter hinner fun _ h => (progresses_advance (isTerminal_of_kind_eq rfl hkind)).first
      fun _ => progresses_branch h scope t.loc
  · rename_i hkind
    exact .enter hinner fun _ h => (progresses_advance (isTerminal_of_kind_eq rfl hkind)).first
      fun _ => progresses_loop h scope t.loc
  · exact hflat _

theorem progresses_statement {front : Option Token} (room : Nat) (scope : Scope) :
    Progresses front 1 (statement room scope) := by
  induction room generalizing scope front with
  | zero => exact progresses_statementWith (fun _ => progresses_flat scope 0) .shut
  | succ room ih =>
    exact progresses_statementWith (fun _ => progresses_flat scope (room + 1))
      (.into ⟨fun scope _ => progresses_expr scope room, fun scope _ => ih scope⟩)

/-! ### Items -/

section

variable {front : Option Token}

theorem progresses_function : Progresses front 1 function := by
  refine .peek fun t => (progresses_expect rfl _).first fun _ =>
    (progresses_name _).bind (n := 1) ?_
  rintro ⟨n, span⟩
  refine (progresses_expect rfl _).bind fun _ => progresses_params.bind fun scope =>
    (progresses_expect rfl _).bind fun _ => (progresses_expect rfl _).bind fun _ =>
    progresses_type.bind fun returns => (progresses_expect rfl _).bind fun _ =>
    (progresses_statements (fun scope _ => progresses_statement maxNesting scope) scope).bind
      (n := 1) ?_
  rintro ⟨grown, body⟩
  exact (progresses_expect rfl _).map fun _ =>
    (⟨n, returns, grown.params, grown.locals, body, t.loc⟩ : Function)

theorem progresses_global : Progresses front 1 global := by
  refine (progresses_name _).first (n := 1) ?_
  rintro ⟨n, span⟩
  exact progresses_declaration (fun _ => progresses_expr Scope.empty maxNesting) n span.start

theorem progresses_item : Progresses front 1 item := by
  refine .peek fun t => ?_
  split
  · exact progresses_function.map Item.function
  · exact progresses_global.map Item.global
  · exact progresses_unexpected _

end

end Shc.Parser
