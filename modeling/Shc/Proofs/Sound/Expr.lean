import Shc.Proofs.Grammar
import Shc.Proofs.ParserRun
import Shc.Proofs.ScopeView

/-!
# Accepted sources derive from the grammar

Each parser, where it succeeds, has consumed the tokens of a derivation and gives
what the derivation stands for.  The facts about variables and nesting come with
it: the names that occur are known in the scope, and the constructs that are open
at once fit into the room that the parser was given.

The image of a derivation depends on the variables only through their names, so
it is stated for every environment that agrees with the scope.  A scope that has
grown still agrees with the environment, which is why the environment of a whole
function serves for each of its parts.
-/

namespace Shc

open Token (Kind)
open Grammar (symbolAt wordAt nameAt)

/-- What names denote in the scope, they denote in the environment. -/
def Scope.Agrees (scope : Scope) (env : String → Variable) : Prop :=
  ∀ name v, scope.find? name = some v → env name = v

/-- The variables that occur are known, what is open at once fits into the room, and
    the image is `a`. -/
structure Means {α : Type} (scope : Scope) (room : Nat) (uses : List String) (depth : Nat)
    (image : (String → Variable) → α) (a : α) : Prop where
  known : ∀ name ∈ uses, ∃ v, scope.find? name = some v
  depth_le : depth ≤ room
  image_eq : ∀ {env : String → Variable}, scope.Agrees env → image env = a

namespace Means

variable {α β : Type} {scope : Scope} {room depth depth' : Nat} {uses uses' : List String}
  {image : (String → Variable) → α} {a : α} {b : β}

theorem const (a : α) : Means scope room [] 0 (fun _ => a) a :=
  ⟨by simp, Nat.zero_le _, fun _ => rfl⟩

theorem name {n : String} {v : Variable} (h : scope.find? n = some v) :
    Means scope room [n] 0 (fun env => env n) v := by
  refine ⟨?_, Nat.zero_le _, fun henv => henv n v h⟩
  intro name hmem
  obtain rfl := List.mem_singleton.1 hmem
  exact ⟨v, h⟩

theorem map (h : Means scope room uses depth image a) (f : α → β) :
    Means scope room uses depth (fun env => f (image env)) (f a) :=
  ⟨h.known, h.depth_le, fun henv => by rw [h.image_eq henv]⟩

theorem opened (h : Means scope room uses depth image a) :
    Means scope (room + 1) uses (depth + 1) image a :=
  ⟨h.known, Nat.succ_le_succ h.depth_le, h.image_eq⟩

/-- A part behind another one, on whose meaning its own image depends. -/
theorem append (h : Means scope room uses depth image a) (more : α → (String → Variable) → β)
    (h' : Means scope room uses' depth' (more a) b) :
    Means scope room (uses ++ uses') (max depth depth') (fun env => more (image env) env) b := by
  refine ⟨?_, Nat.max_le.2 ⟨h.depth_le, h'.depth_le⟩, ?_⟩
  · intro name hname
    rcases List.mem_append.1 hname with hmem | hmem
    · exact h.known name hmem
    · exact h'.known name hmem
  · intro env henv
    rw [h.image_eq henv]
    exact h'.image_eq henv

end Means

/-- A successful run of the parser has consumed a derivation that means its result. -/
def Parser.Finds {α τ : Type} (p : Parser α) (tokens : τ → List Token) (means : τ → α → Prop) :
    Prop :=
  ∀ {s s' : Stream} {a : α}, s.Closed → p s = .ok a s' →
    ∃ t, s.Consumes (tokens t) s' ∧ means t a

namespace Parser

/-! ### Types and parameters -/

theorem eq_symbol_of_ofSymbol? {s : Symbol} {op : Operator} (h : Operator.ofSymbol? s = some op) :
    s = op.symbol := by
  cases s <;> simp [Operator.ofSymbol?] at h <;> subst h <;> rfl

theorem eq_symbol_of_sign {s : Symbol} {sign : Sign} (h : Sign.ofSymbol? s = some sign) :
    s = sign.symbol := by
  cases s <;> simp [Sign.ofSymbol?] at h <;> subst h <;> rfl

theorem eq_keyword_of_base? {kind : Kind} {base : Base} (h : base? kind = some base) :
    kind = .keyword base.keyword := by
  unfold base? at h
  split at h <;> simp at h <;> subst h <;> rfl

/-- A token that is consumed for its meaning alone. -/
theorem advance_pure_ok {α : Type} {s s' : Stream} {kind : Kind} {a b : α} (hs : s.Closed)
    (hkind : s.current.kind = kind) (hproper : kind.isTerminal = false)
    (h : (advance >>= fun _ => pure a) s = .ok b s') :
    s.Consumes [⟨kind, s.current.span⟩] s' ∧ a = b := by
  obtain ⟨t, s'', hadvance, hpure⟩ := bind_eq_ok.1 h
  obtain ⟨rfl, rfl⟩ := pure_eq_ok.1 hpure
  exact ⟨advance_ok_of_kind hs hkind hproper hadvance, rfl⟩

theorem markers_ok {s s' : Stream} {n : Nat} (hs : s.Closed) (h : markers s = .ok n s') :
    ∃ spans : List Span, s.Consumes (spans.map (symbolAt .caret)) s' ∧ n = spans.length := by
  suffices hrun : ∃ spans : List Span,
      s.Consumes (spans.map (symbolAt .caret)) s' ∧ n = 0 + spans.length by
    simpa using hrun
  refine acceptLoop_ok_induction
    (motive := fun n s n' s' => ∃ spans : List Span,
      s.Consumes (spans.map (symbolAt .caret)) s' ∧ n' = n + spans.length)
    rfl ?_ ?_ ?_ hs h
  · intro b s s' hnone
    simp at hnone
  · intro b s hs
    exact ⟨[], .refl hs, rfl⟩
  · intro b s span s₁ b' s₂ b'' s₃ hcons hmore hrest
    simp only [pure_run, EStateM.Result.ok.injEq, Option.some.injEq] at hmore
    obtain ⟨rfl, rfl⟩ := hmore
    obtain ⟨spans, hspans, rfl⟩ := hrest hcons.closed
    refine ⟨span :: spans, hcons.trans hspans, ?_⟩
    simp only [List.length_cons]
    omega

theorem type_finds : Finds type Grammar.TypeName.tokens (fun t ty => t.image = ty) := by
  intro s s' ty hs h
  obtain ⟨n, s₁, hmarkers, hrest⟩ := bind_eq_ok.1 h
  obtain ⟨spans, hspans, rfl⟩ := markers_ok hs hmarkers
  rw [peek_bind] at hrest
  generalize hkind : base? s₁.current.kind = base at hrest
  cases base with
  | none => simp at hrest
  | some base =>
    obtain ⟨hcons, rfl⟩ :=
      advance_pure_ok hspans.closed (eq_keyword_of_base? hkind) rfl hrest
    exact ⟨⟨spans, base, s₁.current.span⟩, hspans.trans hcons, rfl⟩

/-- What declaring a parameter does to the scope. -/
theorem param_finds {scope : Scope} (hscope : scope.Indexed) :
    Finds (param scope) Grammar.Param.tokens (fun p scope' =>
      scope'.Indexed ∧ scope'.params = scope.params ++ [p.image] ∧
        scope'.locals = scope.locals) := by
  intro s s' scope' hs h
  obtain ⟨⟨n, span⟩, s₁, hname, h⟩ := bind_eq_ok.1 h
  have hcons₁ := name_ok hs hname
  obtain ⟨u, s₂, hcolon, h⟩ := bind_eq_ok.1 h
  obtain ⟨colon, hcons₂⟩ := expect_ok hcons₁.closed rfl hcolon
  obtain ⟨ty, s₃, htype, h⟩ := bind_eq_ok.1 h
  obtain ⟨t, hcons₃, rfl⟩ := type_finds hcons₂.closed htype
  cases hdeclare : scope.declareParam? ⟨n, t.image, span.start⟩ with
  | none => simp [hdeclare] at h
  | some grown =>
    simp only [hdeclare, pure_run, EStateM.Result.ok.injEq] at h
    obtain ⟨rfl, rfl⟩ := h
    obtain ⟨grown', hgrown', hfacts⟩ :=
      hscope.declareParam?_of_notMem (hscope.notMem_of_declareParam? hdeclare)
    obtain rfl : grown' = grown := Option.some.inj (hgrown'.symm.trans hdeclare)
    exact ⟨⟨n, span, colon, t⟩, hcons₁.trans (hcons₂.trans hcons₃), hfacts⟩

theorem params_finds :
    Finds params Grammar.Params.tokens (fun ps scope =>
      scope.Indexed ∧ scope.params = ps.image ∧ scope.locals = []) := by
  intro s s' scope hs h
  rw [params, peek_bind] at h
  by_cases hkind : s.current.kind = .symbol .rparen
  · rw [if_pos hkind] at h
    obtain ⟨rfl, rfl⟩ := pure_eq_ok.1 h
    exact ⟨.none, .refl hs, Scope.indexed_empty, rfl, rfl⟩
  · rw [if_neg hkind] at h
    obtain ⟨scope₁, s₁, hfirst, hloop⟩ := bind_eq_ok.1 h
    obtain ⟨first, hcons₁, hscope₁, hparams₁, hlocals₁⟩ :=
      param_finds Scope.indexed_empty hs hfirst
    have hrun : scope₁.Indexed → ∃ rest : List (Span × Grammar.Param),
        s₁.Consumes (Grammar.Params.moreTokens rest) s' ∧ scope.Indexed ∧
          scope.params = scope₁.params ++ rest.map (fun p => p.2.image) ∧
          scope.locals = scope₁.locals := by
      refine acceptLoop_ok_induction
        (motive := fun scope s scope' s' => scope.Indexed → ∃ rest : List (Span × Grammar.Param),
          s.Consumes (Grammar.Params.moreTokens rest) s' ∧ scope'.Indexed ∧
            scope'.params = scope.params ++ rest.map (fun p => p.2.image) ∧
            scope'.locals = scope.locals)
        rfl ?_ ?_ ?_ hcons₁.closed hloop
      · intro scope s s' hnone
        obtain ⟨scope', s₂, hparam, hpure⟩ := bind_eq_ok.1 hnone
        simp at hpure
      · intro scope s hs hscope
        exact ⟨[], .refl hs, hscope, by simp, rfl⟩
      · intro scope s span s₁ scope' s₂ scope'' s₃ hcons hmore hrest hscope
        obtain ⟨scope₂, t, hparam, hpure⟩ := bind_eq_ok.1 hmore
        simp only [pure_run, EStateM.Result.ok.injEq, Option.some.injEq] at hpure
        obtain ⟨rfl, rfl⟩ := hpure
        obtain ⟨p, hcons', hscope', hparams', hlocals'⟩ := param_finds hscope hcons.closed hparam
        obtain ⟨rest, hconsRest, hscope'', hparams'', hlocals''⟩ := hrest hcons'.closed hscope'
        refine ⟨(span, p) :: rest, hcons.trans (hcons'.trans hconsRest), hscope'', ?_, ?_⟩
        · rw [hparams'', hparams']
          simp
        · rw [hlocals'', hlocals']
    obtain ⟨rest, hcons₂, hscope, hparams, hlocals⟩ := hrun hscope₁
    refine ⟨.some first rest, hcons₁.trans hcons₂, hscope, ?_, ?_⟩
    · rw [hparams, hparams₁]
      rfl
    · rw [hlocals, hlocals₁]
      rfl

/-! ### Expressions -/

theorem resolve_ok {scope : Scope} {n : String} {span : Span} {usage : Nat} {loc : Location}
    {s s' : Stream} {r : Reference} (h : resolve scope n span usage loc s = .ok r s') :
    ∃ v, scope.find? n = some v ∧ r = ⟨v, usage, loc⟩ ∧ s' = s := by
  unfold resolve at h
  cases hfind : scope.find? n with
  | none => simp [hfind] at h
  | some v =>
    simp only [hfind, pure_run, EStateM.Result.ok.injEq] at h
    exact ⟨v, rfl, h.1.symm, h.2.symm⟩

/-- A run of markers, here also an empty one, and the variable behind it. -/
theorem marked_ok {scope : Scope} {s s' : Stream} {r : Reference} (hs : s.Closed)
    (h : marked scope s = .ok r s') :
    ∃ (spans : List Span) (n : String) (span : Span) (v : Variable),
      s.Consumes (spans.map (symbolAt .caret) ++ [nameAt n span]) s' ∧
        scope.find? n = some v ∧
        r = ⟨v, spans.length, (spans.head?.getD span).start⟩ := by
  rw [marked, peek_bind] at h
  obtain ⟨usage, s₁, hmarkers, h⟩ := bind_eq_ok.1 h
  obtain ⟨spans, hcons, rfl⟩ := markers_ok hs hmarkers
  rw [peek_bind] at h
  generalize hkind : s₁.current.kind = kind at h
  split at h
  · rename_i n
    obtain ⟨t, s₂, hadvance, h⟩ := bind_eq_ok.1 h
    have hname := advance_ok_of_kind hcons.closed hkind rfl hadvance
    rw [peek_bind] at h
    split at h
    · simp at h
    · obtain ⟨v, hfind, rfl, rfl⟩ := resolve_ok h
      have hall := hcons.trans hname
      refine ⟨spans, n, s₁.current.span, v, hall, hfind, ?_⟩
      cases spans with
      | nil => rw [Token.loc, hall.current_eq]; rfl
      | cons first more => rw [Token.loc, hall.current_eq]; rfl
  · simp at h

theorem operator?_eq_some {layer : Layer} {kind : Kind} {op : Operator}
    (h : operator? layer kind = some op) : kind = .symbol op.symbol ∧ op.layer = layer := by
  unfold operator? at h
  split at h
  · rw [Option.filter_eq_some_iff] at h
    exact ⟨by rw [eq_symbol_of_ofSymbol? h.1], by simpa using h.2⟩
  · simp at h

/-- A parser of operands that finds derivations of the layers below finds, as a
    chain, derivations of one layer more. -/
theorem chain_finds {scope : Scope} {room : Nat} {layer : Layer} {below : List Layer}
    {operand : Parser Value}
    (hoperand : operand.Finds (τ := Grammar.Chain below) Grammar.Chain.tokens
      (fun t => Means scope room t.uses t.depth (t.image ·))) :
    Finds (chain layer operand) (τ := Grammar.Chain (layer :: below)) Grammar.Chain.tokens
      (fun t => Means scope room t.uses t.depth (t.image ·)) := by
  intro s s' value hs h
  rw [chain, peek_bind] at h
  obtain ⟨left, s₁, hfirst, hloop⟩ := bind_eq_ok.1 h
  obtain ⟨first, hcons₁, hmeans₁⟩ := hoperand hs hfirst
  have hstart : s.current.loc = first.start := by
    obtain ⟨t, ts, htokens, hloc⟩ := first.exists_first
    rw [htokens] at hcons₁
    rw [hcons₁.current_eq, hloc]
  rw [hstart] at hloop
  have hrun : ∃ rest : Grammar.Links layer below, s₁.Consumes rest.tokens s' ∧
      Means scope room rest.uses rest.depth
        (rest.image · first.start (.leaf left first.start)) value := by
    -- what has been read so far starts where the chain does
    refine iterate_ok_induction
      (motive := fun left s value s' => s.Closed → left.loc = first.start →
        ∃ rest : Grammar.Links layer below, s.Consumes rest.tokens s' ∧
          Means scope room rest.uses rest.depth (rest.image · first.start left) value)
      ?_ ?_ ?_ hloop hcons₁.closed rfl
    · intro left s s' hstep
      rw [peek_bind] at hstep
      generalize operator? layer s.current.kind = found at hstep
      cases found with
      | none =>
        simp only [pure_run, EStateM.Result.ok.injEq, true_and] at hstep
        exact hstep.symm
      | some op =>
        obtain ⟨t, s₂, hadvance, hstep⟩ := bind_eq_ok.1 hstep
        obtain ⟨right, s₃, hright, hpure⟩ := bind_eq_ok.1 hstep
        simp at hpure
    · intro left s hs _
      exact ⟨.nil, .refl hs, .const left⟩
    · intro left s left' s' value s'' hstep hrest hs hleft
      rw [peek_bind] at hstep
      generalize hfound : operator? layer s.current.kind = found at hstep
      cases found with
      | none => simp at hstep
      | some op =>
        obtain ⟨hkind, hlayer⟩ := operator?_eq_some hfound
        obtain ⟨t, s₂, hadvance, hstep⟩ := bind_eq_ok.1 hstep
        have hop := advance_ok_of_kind hs hkind rfl hadvance
        obtain ⟨right, s₃, hright, hpure⟩ := bind_eq_ok.1 hstep
        simp only [pure_run, EStateM.Result.ok.injEq, Option.some.injEq] at hpure
        obtain ⟨rfl, rfl⟩ := hpure
        obtain ⟨operandTree, hcons, hmeans⟩ := hoperand hop.closed hright
        obtain ⟨rest, hconsRest, hmeansRest⟩ := hrest hcons.closed hleft
        refine ⟨.cons op (Grammar.mem_operators.2 hlayer) s.current.span operandTree rest,
          hop.trans (hcons.trans hconsRest), ?_⟩
        rw [Value.extend, hleft] at hmeansRest
        exact hmeans.append
          (fun right env => rest.image env first.start (.binary op left right first.start))
          hmeansRest
  obtain ⟨rest, hcons₂, hmeans₂⟩ := hrun
  refine ⟨.layer first rest, hcons₁.trans hcons₂, ?_⟩
  exact hmeans₁.append (fun left env => rest.image env first.start (.leaf left first.start)) hmeans₂

/-- The parser finds unary operands for which the room is enough. -/
def FindsUnary (scope : Scope) (room : Nat) (unary : Parser Unary) : Prop :=
  unary.Finds Grammar.Unary.tokens (fun t => Means scope room t.uses t.depth (t.image ·))

def FindsValue (scope : Scope) (room : Nat) (value : Parser Value) : Prop :=
  value.Finds (τ := Grammar.Expr) Grammar.Chain.tokens
    (fun t => Means scope room t.uses t.depth (t.image ·))

def FindsExpr (scope : Scope) (room : Nat) (expr : Parser Expr) : Prop :=
  expr.Finds (τ := Grammar.Expr) Grammar.Chain.tokens
    (fun t => Means scope room t.uses t.depth (t.expr ·))

section

variable {scope : Scope} {room : Nat} {unary : Parser Unary}

theorem valueOf_finds (hunary : FindsUnary scope room unary) :
    FindsValue scope room (valueOf unary) := by
  have hlayers : ∀ layers : List Layer,
      Finds (layers.foldr chain (do return .unary (← unary))) (τ := Grammar.Chain layers)
        Grammar.Chain.tokens (fun t => Means scope room t.uses t.depth (t.image ·)) := by
    intro layers
    induction layers with
    | nil =>
      intro s s' value hs h
      obtain ⟨operand, s₁, hoperand, hpure⟩ := bind_eq_ok.1 h
      obtain ⟨rfl, rfl⟩ := pure_eq_ok.1 hpure
      obtain ⟨t, hcons, hmeans⟩ := hunary hs hoperand
      exact ⟨.unary t, hcons, hmeans.map Value.unary⟩
    | cons layer below ih => exact chain_finds ih
  intro s s' value hs h
  exact hlayers Grammar.allLayers hs h

theorem exprOf_finds (hunary : FindsUnary scope room unary) :
    FindsExpr scope room (exprOf unary) := by
  intro s s' expr hs h
  obtain ⟨value, s₁, hvalue, hpure⟩ := bind_eq_ok.1 h
  obtain ⟨rfl, rfl⟩ := pure_eq_ok.1 hpure
  obtain ⟨t, hcons, hmeans⟩ := valueOf_finds hunary hs hvalue
  refine ⟨t, hcons, ?_⟩
  simpa only [Grammar.Chain.single_image] using hmeans.map Expr.single

theorem moreArgs_ok (hunary : FindsUnary scope room unary) {s s' : Stream}
    {found all : List Expr} (hs : s.Closed)
    (h : iterate (fun found => do
      if ← accept (.symbol .comma) then return some (found ++ [← exprOf unary])
      else return none) found s = .ok all s') :
    ∃ rest : Grammar.MoreArgs, s.Consumes rest.tokens s' ∧
      Means scope room rest.uses rest.depth (fun env => found ++ rest.image env) all := by
  refine acceptLoop_ok_induction
    (motive := fun found s all s' => ∃ rest : Grammar.MoreArgs, s.Consumes rest.tokens s' ∧
      Means scope room rest.uses rest.depth (fun env => found ++ rest.image env) all)
    rfl ?_ ?_ ?_ hs h
  · intro found s s' hnone
    obtain ⟨expr, s₂, hexpr, hpure⟩ := bind_eq_ok.1 hnone
    simp at hpure
  · intro found s hs
    have hempty : Means scope room [] 0 (fun _ => found ++ []) found := by
      simpa using Means.const found
    exact ⟨.nil, .refl hs, hempty⟩
  · intro found s span s₁ found' s₂ all s₃ hcomma hmore hrest
    obtain ⟨expr, t, hexpr, hpure⟩ := bind_eq_ok.1 hmore
    simp only [pure_run, EStateM.Result.ok.injEq, Option.some.injEq] at hpure
    obtain ⟨rfl, rfl⟩ := hpure
    obtain ⟨arg, hcons, hmeans⟩ := exprOf_finds hunary hcomma.closed hexpr
    obtain ⟨rest, hconsRest, hmeansRest⟩ := hrest hcons.closed
    refine ⟨.cons span arg rest, hcomma.trans (hcons.trans hconsRest), ?_⟩
    simp only [List.append_assoc] at hmeansRest
    exact hmeans.append (fun expr env => found ++ ([expr] ++ rest.image env)) hmeansRest

/-- The arguments of a call, through the closing parenthesis. -/
theorem argsOf_finds (hunary : FindsUnary scope room unary) :
    Finds (argsOf unary) (τ := Grammar.Args × Span)
      (fun t => t.1.tokens ++ [symbolAt .rparen t.2])
      (fun t => Means scope room t.1.uses t.1.depth (t.1.image ·)) := by
  intro s s' all hs h
  rw [argsOf, peek_bind] at h
  split at h
  · obtain ⟨args, s₁, hargs, hrest⟩ := bind_eq_ok.1 h
    obtain ⟨rfl, rfl⟩ := pure_eq_ok.1 hargs
    obtain ⟨u, s₂, hclose, hpure⟩ := bind_eq_ok.1 hrest
    obtain ⟨rfl, rfl⟩ := pure_eq_ok.1 hpure
    obtain ⟨closing, hcons⟩ := expect_ok hs rfl hclose
    exact ⟨(.none, closing), hcons, .const []⟩
  · obtain ⟨args, s₁, hargs, h⟩ := bind_eq_ok.1 h
    obtain ⟨u, s₂, hclose, hpure⟩ := bind_eq_ok.1 h
    obtain ⟨rfl, rfl⟩ := pure_eq_ok.1 hpure
    obtain ⟨expr, t, hexpr, hloop⟩ := bind_eq_ok.1 hargs
    obtain ⟨first, hcons₁, hmeans₁⟩ := exprOf_finds hunary hs hexpr
    obtain ⟨rest, hcons₂, hmeans₂⟩ := moreArgs_ok hunary hcons₁.closed hloop
    obtain ⟨closing, hcons₃⟩ := expect_ok hcons₂.closed rfl hclose
    refine ⟨(.some first rest, closing), (hcons₁.trans hcons₂).trans hcons₃, ?_⟩
    exact hmeans₁.append (fun expr env => [expr] ++ rest.image env) hmeans₂

end

theorem enter_ok {ι α : Type} {P : ι → Prop} {inner : Opening Stream ParseError ι}
    (hinner : inner.Leads P) {p : ι → Parser α} {s s' : Stream} {a : α}
    (h : inner.enter p s = .ok a s') : ∃ i, P i ∧ p i s = .ok a s' := by
  cases hinner with
  | shut => simp [Opening.shut] at h
  | into hi => exact ⟨_, hi, h⟩

/-- Operands one level further in are found with one less room. -/
def FindsInner (scope : Scope) (room : Nat) : Opening Stream ParseError (Parser Unary) → Prop :=
  Opening.Leads fun unary => ∃ less, room = less + 1 ∧ FindsUnary scope less unary

section

variable {scope : Scope} {room : Nat} {inner : Opening Stream ParseError (Parser Unary)}

theorem factor_finds (hinner : FindsInner scope room inner) :
    Finds (factor scope inner) Grammar.Factor.tokens
      (fun t => Means scope room t.uses t.depth (t.image ·)) := by
  intro s s' found hs h
  rw [factor, peek_bind] at h
  generalize hkind : s.current.kind = kind at h
  cases kind with
  | int value =>
    obtain ⟨hcons, rfl⟩ := advance_pure_ok hs hkind rfl h
    exact ⟨.int _ _, hcons, .const _⟩
  | char c =>
    obtain ⟨hcons, rfl⟩ := advance_pure_ok hs hkind rfl h
    exact ⟨.char _ _, hcons, .const _⟩
  | bool b =>
    obtain ⟨hcons, rfl⟩ := advance_pure_ok hs hkind rfl h
    exact ⟨.bool _ _, hcons, .const _⟩
  | string value =>
    obtain ⟨hcons, rfl⟩ := advance_pure_ok hs hkind rfl h
    exact ⟨.string _ _, hcons, .const _⟩
  | symbol symbol =>
    cases symbol with
    | lparen =>
      obtain ⟨unary, ⟨less, rfl, hfinds⟩, h⟩ := enter_ok hinner h
      obtain ⟨t, s₁, hadvance, h⟩ := bind_eq_ok.1 h
      have hopen := advance_ok_of_kind hs hkind rfl hadvance
      obtain ⟨expr, s₂, hexpr, h⟩ := bind_eq_ok.1 h
      obtain ⟨e, hcons, hmeans⟩ := exprOf_finds hfinds hopen.closed hexpr
      obtain ⟨u, s₃, hclose, hpure⟩ := bind_eq_ok.1 h
      obtain ⟨closing, hcons'⟩ := expect_ok hcons.closed rfl hclose
      obtain ⟨rfl, rfl⟩ := pure_eq_ok.1 hpure
      refine ⟨.paren s.current.span e closing, hopen.trans (hcons.trans hcons'), ?_⟩
      exact (hmeans.map (Factor.paren · s.current.loc)).opened
    | _ => exact absurd h (by simp)
  | ident n =>
    obtain ⟨t, s₁, hadvance, h⟩ := bind_eq_ok.1 h
    have hname := advance_ok_of_kind hs hkind rfl hadvance
    obtain ⟨found, s₂, haccept, hrest⟩ := bind_eq_ok.1 h
    cases found with
    | true =>
      -- a call
      obtain ⟨opening, hopen⟩ := accept_ok_true hname.closed rfl haccept
      rw [if_pos rfl] at hrest
      obtain ⟨args, s₃, hargs, hpure⟩ := bind_eq_ok.1 hrest
      obtain ⟨unary, ⟨less, rfl, hfinds⟩, hargs⟩ := enter_ok hinner hargs
      obtain ⟨⟨e, closing⟩, hcons, hmeans⟩ := argsOf_finds hfinds hopen.closed hargs
      obtain ⟨rfl, rfl⟩ := pure_eq_ok.1 hpure
      refine ⟨.call n s.current.span opening e closing, hname.trans (hopen.trans hcons), ?_⟩
      exact (hmeans.map (Factor.call (.placeholder n s.current.loc) · s.current.loc)).opened
    | false =>
      -- a variable
      obtain ⟨rfl, -⟩ := accept_ok_false haccept
      rw [if_neg (by decide)] at hrest
      obtain ⟨r, s₃, hresolve, hpure⟩ := bind_eq_ok.1 hrest
      obtain ⟨v, hfind, rfl, rfl⟩ := resolve_ok hresolve
      obtain ⟨rfl, rfl⟩ := pure_eq_ok.1 hpure
      refine ⟨.var n s.current.span, hname, ?_⟩
      exact (Means.name hfind).map fun v => Factor.var ⟨v, 0, s.current.loc⟩
  | keyword word => exact absurd h (by simp)
  | eos => exact absurd h (by simp)
  | error e => exact absurd h (by simp)

theorem unaryWith_finds (hinner : FindsInner scope room inner) :
    FindsUnary scope room (unaryWith scope inner) := by
  intro s s' found hs h
  rw [unaryWith, peek_bind] at h
  cases hsign : sign? s.current.kind with
  | some sign =>
    have hkind : s.current.kind = .symbol sign.symbol := by
      unfold sign? at hsign
      split at hsign
      · rename_i symbol hsymbol
        rw [hsymbol, eq_symbol_of_sign hsign]
      · simp at hsign
    simp only [hsign] at h
    obtain ⟨unary, ⟨less, rfl, hfinds⟩, h⟩ := enter_ok hinner h
    obtain ⟨t, s₁, hadvance, h⟩ := bind_eq_ok.1 h
    have hsignToken := advance_ok_of_kind hs hkind rfl hadvance
    obtain ⟨operand, s₂, hoperand, hpure⟩ := bind_eq_ok.1 h
    obtain ⟨e, hcons, hmeans⟩ := hfinds hsignToken.closed hoperand
    obtain ⟨rfl, rfl⟩ := pure_eq_ok.1 hpure
    refine ⟨.signed sign s.current.span e, hsignToken.trans hcons, ?_⟩
    exact (hmeans.map (Unary.signed sign · s.current.loc)).opened
  | none =>
    simp only [hsign] at h
    by_cases hcaret : s.current.kind = .symbol .caret
    · rw [if_pos hcaret] at h
      obtain ⟨r, s₁, hmarked, hpure⟩ := bind_eq_ok.1 h
      obtain ⟨rfl, rfl⟩ := pure_eq_ok.1 hpure
      obtain ⟨spans, n, span, v, hcons, hfind, rfl⟩ := marked_ok hs hmarked
      cases spans with
      | nil =>
        -- the run is not empty: a marker stands in front
        have hcurrent : s.current = nameAt n span := hcons.current_eq
        rw [hcurrent] at hcaret
        exact absurd hcaret (by simp)
      | cons first more =>
        refine ⟨.marked first more n span, hcons, ?_⟩
        exact (Means.name hfind).map fun v => Unary.factor (.var ⟨v, more.length + 1, first.start⟩)
    · rw [if_neg hcaret] at h
      obtain ⟨f, s₁, hfactor, hpure⟩ := bind_eq_ok.1 h
      obtain ⟨rfl, rfl⟩ := pure_eq_ok.1 hpure
      obtain ⟨e, hcons, hmeans⟩ := factor_finds hinner hs hfactor
      exact ⟨.factor e, hcons, hmeans.map Unary.factor⟩

end

theorem unary_finds (scope : Scope) (room : Nat) : FindsUnary scope room (unary scope room) := by
  induction room with
  | zero => exact unaryWith_finds .shut
  | succ room ih => exact unaryWith_finds (.into ⟨room, rfl, ih⟩)

theorem args_finds (scope : Scope) (room : Nat) :
    Finds (args scope room) (τ := Grammar.Args × Span)
      (fun t => t.1.tokens ++ [symbolAt .rparen t.2])
      (fun t => Means scope room t.1.uses (t.1.depth + 1) (t.1.image ·)) := by
  intro s s' all hs h
  cases room with
  | zero => simp [args, operands, Opening.shut] at h
  | succ room =>
    obtain ⟨t, hcons, hmeans⟩ := argsOf_finds (unary_finds scope room) hs h
    exact ⟨t, hcons, hmeans.opened⟩

end Parser
end Shc
