import Shc.Parse.Session
import Shc.Proofs.ErrorPrefix

/-!
# The counter of a session

A session counts the open constructs, while the parsers hand down how many may still be
opened.  `Follows room p q` says that `p` does in a session what the parser `q` does, if
the counter leaves room for `room` more constructs: the answer or the error is the same
and so are the tokens left, the counter is in the end what it was before, and on the way
it has kept to its limits.  Only `nested` touches the counter, and it is here that an
error could leave a construct counted.
-/

namespace Shc

namespace Counted

variable {α β : Type}

/-! ### Runs -/

/-- What a parser came to, in a session with the given counter. -/
def outcome (depth : Int) (trail : List Int) :
    EStateM.Result ParseError Stream α → EStateM.Result Halt Session α
  | .ok a stream => .ok a ⟨stream, depth, trail⟩
  | .error e stream => .error (.error e) ⟨stream, depth, trail⟩

/-- The values of a counter within its limits. -/
def InLimits (trail : List Int) : Prop :=
  ∀ n ∈ trail, 0 ≤ n ∧ n ≤ maxNesting

theorem inLimits_append {trail trail' : List Int} (h : InLimits trail) (h' : InLimits trail') :
    InLimits (trail ++ trail') := by
  intro n hn
  rcases List.mem_append.1 hn with hn | hn
  · exact h n hn
  · exact h' n hn

/-- With room for `room` more constructs `p` does what `q` does, and leaves the counter as
    it was. -/
def Follows (room : Nat) (p : Counted α) (q : Parser α) : Prop :=
  ∀ s : Session, 0 ≤ s.depth → s.depth + room = maxNesting →
    ∃ trail, InLimits trail ∧ p s = outcome s.depth (trail ++ s.trail) (q s.stream)

section

variable {room : Nat}

theorem follows_pure (a : α) : Follows room (pure a) (pure a) :=
  fun _ _ _ => ⟨[], by simp [InLimits], rfl⟩

theorem Follows.bind {p : Counted α} {q : Parser α} {k : α → Counted β} {l : α → Parser β}
    (hp : Follows room p q) (hk : ∀ a, Follows room (k a) (l a)) :
    Follows room (p >>= k) (q >>= l) := by
  intro s hpos hroom
  obtain ⟨trail, htrail, hrun⟩ := hp s hpos hroom
  change ∃ trail, InLimits trail ∧ EStateM.bind p k s = _
  rw [EStateM.bind, hrun]
  cases hq : q s.stream with
  | error e stream =>
    rw [Parser.bind_of_error hq]
    exact ⟨trail, htrail, rfl⟩
  | ok a stream =>
    rw [Parser.bind_of_ok hq]
    obtain ⟨trail', htrail', hrun'⟩ := hk a ⟨stream, s.depth, trail ++ s.trail⟩ hpos hroom
    refine ⟨trail' ++ trail, inLimits_append htrail' htrail, ?_⟩
    rw [List.append_assoc]
    exact hrun'

theorem Follows.map {p : Counted α} {q : Parser α} (h : Follows room p q) (f : α → β) :
    Follows room (do return f (← p)) (do return f (← q)) :=
  h.bind fun a => follows_pure (f a)

theorem Follows.ite {c : Prop} [Decidable c] {p p' : Counted α} {q q' : Parser α}
    (h : Follows room p q) (h' : Follows room p' q') :
    Follows room (if c then p else p') (if c then q else q') := by
  by_cases hc : c
  · rwa [if_pos hc, if_pos hc]
  · rwa [if_neg hc, if_neg hc]

theorem follows_peek : Follows room Parser.peek Parser.peek :=
  fun _ _ _ => ⟨[], by simp [InLimits], rfl⟩

theorem follows_fail (kind : ParseError.Kind) (span : Span) :
    Follows room (Parser.fail kind span : Counted α) (Parser.fail kind span) :=
  fun _ _ _ => ⟨[], by simp [InLimits], rfl⟩

theorem follows_unexpected (expected : String) :
    Follows room (Parser.unexpected expected : Counted α) (Parser.unexpected expected) :=
  follows_peek.bind fun t => follows_fail (.unexpected expected t.kind) t.span

theorem follows_tooDeep : Follows room (Parser.tooDeep : Counted α) Parser.tooDeep :=
  follows_peek.bind fun t => follows_fail .nestingTooDeep t.span

theorem follows_checked : Follows room Parser.checked Parser.checked := by
  refine follows_peek.bind fun t => ?_
  obtain ⟨kind, span⟩ := t
  cases kind with
  | error e => exact follows_fail (.lex e) span
  | _ => exact follows_pure ()

theorem follows_advance : Follows room Parser.advance Parser.advance := by
  refine follows_peek.bind fun t => .bind ?_ fun _ => follows_checked.map fun _ => t
  intro s _ _
  refine ⟨[], by simp [InLimits], ?_⟩
  cases t.isTerminal <;> rfl

theorem follows_accept (kind : Token.Kind) :
    Follows room (Parser.accept kind) (Parser.accept kind) :=
  follows_peek.bind fun _ => .ite (follows_advance.map fun _ => true) (follows_pure false)

theorem follows_expect (kind : Token.Kind) (what : String) :
    Follows room (Parser.expect kind what) (Parser.expect kind what) :=
  follows_peek.bind fun _ => .ite (follows_advance.map fun _ => ()) (follows_unexpected what)

theorem follows_name (what : String) : Follows room (Parser.name what) (Parser.name what) := by
  refine follows_peek.bind fun t => ?_
  obtain ⟨kind, span⟩ := t
  cases kind with
  | ident n => exact follows_advance.map fun _ => (n, span)
  | _ => exact follows_unexpected what

theorem Follows.iterate {step : β → Counted (Option β)} {step' : β → Parser (Option β)}
    (h : ∀ b, Follows room (step b) (step' b)) (b : β) :
    Follows room (Parser.iterate step b) (Parser.iterate step' b) := by
  intro s hpos hroom
  induction hsize : s.stream.size using Nat.strongRecOn generalizing b s with
  | _ n ih =>
    obtain ⟨trail, htrail, hrun⟩ := h b s hpos hroom
    cases hstep : step' b s.stream with
    | error e stream =>
      rw [hstep] at hrun
      rw [Parser.iterate_of_error hrun, Parser.iterate_of_error hstep]
      exact ⟨trail, htrail, rfl⟩
    | ok found stream =>
      rw [hstep] at hrun
      cases found with
      | none =>
        rw [Parser.iterate_of_none hrun, Parser.iterate_of_none hstep]
        exact ⟨trail, htrail, rfl⟩
      | some b' =>
        by_cases hlt : stream.size < s.stream.size
        · rw [Parser.iterate_of_some hrun hlt, Parser.iterate_of_some hstep hlt]
          obtain ⟨trail', htrail', hrun'⟩ :=
            ih _ (hsize ▸ hlt) b' ⟨stream, s.depth, trail ++ s.trail⟩ hpos hroom rfl
          refine ⟨trail' ++ trail, inLimits_append htrail' htrail, ?_⟩
          rw [List.append_assoc]
          exact hrun'
        · rw [Parser.iterate_of_still hrun hlt, Parser.iterate_of_still hstep hlt]
          exact ⟨trail, htrail, rfl⟩

theorem Follows.acceptLoop {kind : Token.Kind} {more : β → Counted (Option β)}
    {more' : β → Parser (Option β)} (h : ∀ b, Follows room (more b) (more' b)) (b : β) :
    Follows room
      (Parser.iterate (fun b => do if ← Parser.accept kind then more b else return none) b)
      (Parser.iterate (fun b => do if ← Parser.accept kind then more' b else return none) b) :=
  .iterate (fun b => (follows_accept kind).bind fun _ => .ite (h b) (follows_pure none)) b

theorem Follows.commaList {p : Counted α} {q : Parser α} (h : Follows room p q) :
    Follows room (Parser.commaList p) (Parser.commaList q) :=
  h.bind fun first => .acceptLoop (fun found => h.map fun a => some (found ++ [a])) [first]

theorem follows_nested_zero (p : Counted α) : Follows 0 (nested p) Parser.tooDeep := by
  intro s hpos hroom
  have hfull : (maxNesting : Int) ≤ s.depth := by omega
  rw [nested, if_pos hfull]
  exact follows_tooDeep s hpos hroom

/-- A construct is counted up in front and down behind, whether it fails or not. -/
theorem Follows.nested {p : Counted α} {q : Parser α} (h : Follows room p q) :
    Follows (room + 1) (nested p) q := by
  intro s hpos hroom
  have hfree : ¬ (maxNesting : Int) ≤ s.depth := by omega
  obtain ⟨trail, htrail, hrun⟩ := h (s.count 1) (by simp only [Session.count]; omega)
    (by simp only [Session.count]; omega)
  have hdepth : (s.depth + 1) + -1 = s.depth := by omega
  refine ⟨s.depth :: (trail ++ [s.depth + 1]), ?_, ?_⟩
  · intro n hn
    rcases List.mem_cons.1 hn with rfl | hn
    · omega
    · refine inLimits_append htrail ?_ n hn
      intro n hn
      rw [List.mem_singleton.1 hn]
      omega
  · have hstream : (s.count 1).stream = s.stream := rfl
    rw [Counted.nested, if_neg hfree, hrun, hstream]
    cases q s.stream <;> simp [Session.count, outcome, hdepth]

/-- The recursion on the counter is the recursion on the room. -/
theorem follows_descend {body : (α → Counted β) → α → Counted β} {q : Nat → α → Parser β}
    (h : ∀ (room : Nat) (self : α → Counted β) (a : α),
      (∀ inner, room = inner + 1 → ∀ a, Follows inner (self a) (q inner a)) →
        Follows room (body self a) (q room a))
    (room : Nat) (a : α) : Follows room (descend body a) (q room a) := by
  induction room generalizing a with
  | zero =>
    intro s hpos hroom
    rw [descend]
    refine h 0 _ a ?_ s hpos hroom
    intro inner hinner
    exact absurd hinner (by omega)
  | succ room ih =>
    intro s hpos hroom
    rw [descend]
    refine h (room + 1) _ a ?_ s hpos hroom
    intro inner hinner a s' hpos' hroom'
    obtain rfl : inner = room := by omega
    have hdeeper : s.depth < s'.depth ∧ s'.depth ≤ maxNesting := by omega
    simp only [if_pos hdeeper]
    exact ih a s' hpos' hroom'

end

/-! ### Types and parameters -/

section

variable {room : Nat}

theorem follows_markers : Follows room Parser.markers Parser.markers :=
  .acceptLoop (fun count => follows_pure (some (count + 1))) 0

theorem follows_type : Follows room Parser.type Parser.type := by
  refine follows_markers.bind fun depth => follows_peek.bind fun t => ?_
  cases Parser.base? t.kind with
  | some base => exact follows_advance.map fun _ => (⟨base, depth⟩ : Ty)
  | none => exact follows_unexpected _

theorem follows_param (scope : Scope) :
    Follows room (Parser.param scope) (Parser.param scope) := by
  refine (follows_name _).bind fun (n, span) => (follows_expect _ _).bind fun _ =>
    follows_type.bind fun type => ?_
  cases scope.declareParam? ⟨n, type, span.start⟩ with
  | some grown => exact follows_pure grown
  | none => exact follows_fail _ span

theorem follows_params : Follows room Parser.params Parser.params :=
  follows_peek.bind fun _ => .ite (follows_pure Scope.empty)
    ((follows_param Scope.empty).bind fun scope =>
      .acceptLoop (fun scope => (follows_param scope).map some) scope)

/-! ### Expressions -/

theorem follows_resolve (scope : Scope) (n : String) (span : Span) (usage : Nat)
    (loc : Location) :
    Follows room (Parser.resolve scope n span usage loc)
      (Parser.resolve scope n span usage loc) := by
  unfold Parser.resolve
  cases scope.find? n with
  | some decl => exact follows_pure (⟨decl, usage, loc⟩ : Reference)
  | none => exact follows_fail _ span

theorem follows_marked (scope : Scope) :
    Follows room (Parser.marked scope) (Parser.marked scope) := by
  refine follows_peek.bind fun first => follows_markers.bind fun usage =>
    follows_peek.bind fun t => ?_
  obtain ⟨kind, span⟩ := t
  cases kind with
  | ident n =>
    exact follows_advance.bind fun _ => follows_peek.bind fun _ =>
      .ite (follows_fail _ _) (follows_resolve scope n span usage first.loc)
  | _ => exact follows_fail _ span

theorem follows_chain (layer : Layer) {p : Counted Value} {q : Parser Value}
    (h : Follows room p q) : Follows room (Parser.chain layer p) (Parser.chain layer q) := by
  refine follows_peek.bind fun start => h.bind fun first =>
    .iterate (fun left => follows_peek.bind fun t => ?_) (Value.leaf first start.loc)
  cases Parser.operator? layer t.kind with
  | none => exact follows_pure none
  | some op => exact follows_advance.bind fun _ => h.map fun right => some (left.extend op right)

section

variable {p : Counted Unary} {q : Parser Unary} (h : Follows room p q)

include h

theorem follows_valueOf : Follows room (Parser.valueOf p) (Parser.valueOf q) := by
  unfold Parser.valueOf
  induction Layer.all with
  | nil => exact h.map Value.unary
  | cons layer layers ih => exact follows_chain layer ih

theorem follows_exprOf : Follows room (Parser.exprOf p) (Parser.exprOf q) :=
  (follows_valueOf h).map Expr.single

theorem follows_argsOf : Follows room (Parser.argsOf p) (Parser.argsOf q) := by
  have hclose : ∀ args : List Expr, Follows room
      (do Parser.expect (.symbol .rparen) "')' after arguments"; return args)
      (do Parser.expect (.symbol .rparen) "')' after arguments"; return args) :=
    fun args => (follows_expect _ _).map fun _ => args
  exact follows_peek.bind fun t => .ite ((follows_pure []).bind hclose)
    ((follows_exprOf h).commaList.bind hclose)

end

end

/-- What is within a construct has one room less, if there is room at all. -/
inductive Opens {ι ι' : Type} (R : Nat → ι → ι' → Prop) :
    (room : Nat) → ι → Opening Stream ParseError ι' → Prop where
  | shut {inner : ι} : Opens R 0 inner .shut
  | into {room : Nat} {inner : ι} {inner' : ι'} :
      R room inner inner' → Opens R (room + 1) inner (.into inner')

theorem Follows.enter {ι ι' : Type} {R : Nat → ι → ι' → Prop} {room : Nat} {inner : ι}
    {inner' : Opening Stream ParseError ι'} {k : ι → Counted α} {k' : ι' → Parser α}
    (h : Opens R room inner inner')
    (hk : ∀ {less : Nat} {a : ι'}, R less inner a → Follows less (k inner) (k' a)) :
    Follows room ((opening inner).enter k) (inner'.enter k') := by
  cases h with
  | shut => exact follows_nested_zero _
  | into h => exact (hk h).nested

section

variable {room : Nat} {self : Counted Unary} {inner : Opening Stream ParseError (Parser Unary)}
  (hinner : Opens Follows room self inner) (scope : Scope)

include hinner

theorem follows_factor :
    Follows room (Parser.factor scope (opening self)) (Parser.factor scope inner) := by
  refine follows_peek.bind fun t => ?_
  obtain ⟨kind, span⟩ := t
  cases kind with
  | int value => exact follows_advance.map fun _ => Factor.const value span.start
  | char c => exact follows_advance.map fun _ => Factor.const c.toNat span.start
  | bool b => exact follows_advance.map fun _ => Factor.const (if b then 1 else 0) span.start
  | string value => exact follows_advance.map fun _ => Factor.string value span.start
  | symbol symbol =>
    cases symbol with
    | lparen =>
      exact .enter hinner fun h => follows_advance.bind fun _ => (follows_exprOf h).bind fun e =>
        (follows_expect _ _).map fun _ => Factor.paren e span.start
    | _ => exact follows_unexpected _
  | ident n =>
    refine follows_advance.bind fun _ => (follows_accept _).bind fun _ => .ite ?_ ?_
    · exact (Follows.enter hinner fun h => follows_argsOf h).map fun args =>
        Factor.call (.placeholder n span.start) args span.start
    · exact (follows_resolve scope n span 0 span.start).map Factor.var
  | keyword => exact follows_unexpected _
  | eos => exact follows_unexpected _
  | error => exact follows_unexpected _

theorem follows_unaryWith :
    Follows room (Parser.unaryWith scope (opening self)) (Parser.unaryWith scope inner) := by
  refine follows_peek.bind fun t => ?_
  cases Parser.sign? t.kind with
  | some sign =>
    exact .enter hinner fun h => follows_advance.bind fun _ =>
      h.map fun operand => Unary.signed sign operand t.loc
  | none =>
    refine .ite ?_ ?_
    · exact (follows_marked scope).map fun r => Unary.factor (.var r)
    · exact (follows_factor hinner scope).map Unary.factor

end

section

variable (scope : Scope) (room : Nat)

theorem follows_unary : Follows room (unary scope) (Parser.unary scope room) := by
  refine follows_descend (q := fun room _ => Parser.unary scope room) ?_ room ()
  intro room self _ hself
  cases room with
  | zero => exact follows_unaryWith .shut scope
  | succ less => exact follows_unaryWith (.into (hself less rfl ())) scope

theorem follows_expr : Follows room (expr scope) (Parser.expr scope room) :=
  follows_exprOf (follows_unary scope room)

theorem follows_args :
    Follows room ((opening (unary scope)).enter Parser.argsOf) (Parser.args scope room) := by
  cases room with
  | zero => exact follows_nested_zero _
  | succ room => exact (follows_argsOf (follows_unary scope room)).nested

end

/-! ### Statements -/

section

variable {room : Nat}

theorem follows_condition {p : Counted Expr} {q : Parser Expr} (h : Follows room p q)
    (keyword : Keyword) :
    Follows room (Parser.condition keyword p) (Parser.condition keyword q) :=
  follows_peek.bind fun t => (follows_expect _ _).bind fun _ => h.bind fun e =>
    (follows_expect _ _).map fun _ => Factor.paren e t.loc

theorem follows_semicolon : Follows room Parser.semicolon Parser.semicolon :=
  follows_expect _ _

theorem follows_declaration {p : Counted Expr} {q : Parser Expr} (h : Follows room p q)
    (n : String) (loc : Location) :
    Follows room (Parser.declaration p n loc) (Parser.declaration q n loc) := by
  refine (follows_expect _ _).bind fun _ => follows_type.bind fun type =>
    (follows_accept _).bind fun found => ?_
  have hdone : Follows room
      (do Parser.semicolon; return (⟨n, type, loc⟩ : Variable))
      (do Parser.semicolon; return (⟨n, type, loc⟩ : Variable)) :=
    follows_semicolon.map fun _ => (⟨n, type, loc⟩ : Variable)
  have hend : Follows room
      (do
        let t ← Parser.peek
        if t.kind = .symbol .comma then Parser.fail .multipleDeclarations t.span
        Parser.semicolon
        return (⟨n, type, loc⟩ : Variable))
      (do
        let t ← Parser.peek
        if t.kind = .symbol .comma then Parser.fail .multipleDeclarations t.span
        Parser.semicolon
        return (⟨n, type, loc⟩ : Variable)) :=
    follows_peek.bind fun t => .ite ((follows_fail _ t.span).bind fun _ => hdone) hdone
  exact .ite (h.bind fun _ => hend) hend

theorem follows_assignment {p : Counted Value} {q : Parser Value} (h : Follows room p q)
    (target : Reference) (loc : Location) :
    Follows room (Parser.assignment p target loc) (Parser.assignment q target loc) :=
  (follows_expect _ _).bind fun _ => h.bind fun value =>
    follows_semicolon.map fun _ => Statement.assign ⟨some target, value, loc⟩ loc

theorem follows_ret {p : Counted Expr} {q : Parser Expr} (h : Follows room p q)
    (loc : Location) : Follows room (Parser.ret p loc) (Parser.ret q loc) := by
  have hend : ∀ value : Option Expr, Follows room
      (do Parser.semicolon; return Statement.ret value loc)
      (do Parser.semicolon; return Statement.ret value loc) :=
    fun value => follows_semicolon.map fun _ => Statement.ret value loc
  exact follows_peek.bind fun _ => .ite ((follows_pure none).bind hend)
    ((h.map some).bind hend)

end

section

variable {room : Nat} {p : Counted Unary} {q : Parser Unary} {args : Counted (List Expr)}
  {args' : Parser (List Expr)} (h : Follows room p q) (hargs : Follows room args args')
  (scope : Scope)

include h hargs

theorem follows_named :
    Follows room (Parser.named scope p args) (Parser.named scope q args') := by
  refine (follows_name _).bind fun (n, span) => follows_peek.bind fun t => ?_
  obtain ⟨kind, tokenSpan⟩ := t
  cases kind with
  | symbol symbol =>
    cases symbol with
    | colon =>
      refine (follows_declaration (follows_exprOf h) n span.start).bind fun v => ?_
      cases scope.declareLocal? v with
      | some grown => exact follows_pure (grown, [Statement.declare v span.start])
      | none => exact follows_fail _ span
    | lparen =>
      exact follows_advance.bind fun _ => hargs.bind fun args =>
        follows_semicolon.map fun _ =>
        (scope, [Statement.call (.placeholder n span.start) args span.start])
    | eq =>
      exact (follows_resolve scope n span 0 span.start).bind fun target =>
        (follows_assignment (follows_valueOf h) target span.start).map fun statement =>
        (scope, [statement])
    | _ => exact follows_unexpected _
  | _ => exact follows_unexpected _

theorem follows_flat : Follows room (Parser.flat scope p args) (Parser.flat scope q args') := by
  refine follows_peek.bind fun t => ?_
  obtain ⟨kind, span⟩ := t
  cases kind with
  | keyword word =>
    cases word with
    | breakKw =>
      exact follows_advance.bind fun _ => follows_semicolon.map fun _ =>
        (scope, [Statement.brk span.start])
    | continueKw =>
      exact follows_advance.bind fun _ => follows_semicolon.map fun _ =>
        (scope, [Statement.cont span.start])
    | returnKw =>
      exact follows_advance.bind fun _ =>
        (follows_ret (follows_exprOf h) span.start).map fun statement => (scope, [statement])
    | _ => exact follows_unexpected _
  | symbol symbol =>
    cases symbol with
    | semicolon => exact follows_advance.map fun _ => (scope, [])
    | caret =>
      exact (follows_marked scope).bind fun target =>
        (follows_assignment (follows_valueOf h) target span.start).map fun statement =>
        (scope, [statement])
    | _ => exact follows_unexpected _
  | ident n => exact follows_named h hargs scope
  | _ => exact follows_unexpected _

end

section

variable {room : Nat} {p : Scope → Counted Parser.Body} {q : Scope → Parser Parser.Body}
  (h : ∀ scope, Follows room (p scope) (q scope))

include h

theorem follows_statements (scope : Scope) :
    Follows room (Parser.statements p scope) (Parser.statements q scope) := by
  refine .iterate ?_ (scope, [])
  rintro ⟨scope, found⟩
  exact follows_peek.bind fun _ => .ite (follows_pure none) ((h scope).map _)

theorem follows_block (scope : Scope) :
    Follows room (Parser.block p scope) (Parser.block q scope) :=
  (follows_statements h scope).bind fun body => (follows_expect _ _).map fun _ => body

theorem follows_body (scope : Scope) :
    Follows room (Parser.body p scope) (Parser.body q scope) :=
  (follows_accept _).bind fun _ => .ite (follows_block h scope) (h scope)

end

/-- What is parsed on the two levels is the same. -/
structure FollowsLevel (room : Nat) (level : Parser.Level Session Halt)
    (level' : Parser.Level Stream ParseError) : Prop where
  expr : ∀ scope, Follows room (level.expr scope) (level'.expr scope)
  statement : ∀ scope, Follows room (level.statement scope) (level'.statement scope)

section

variable {room : Nat} {level : Parser.Level Session Halt}
  {level' : Parser.Level Stream ParseError} (h : FollowsLevel room level level') (scope : Scope)
  (loc : Location)

include h

theorem follows_branch :
    Follows room (Parser.branch level scope loc) (Parser.branch level' scope loc) := by
  refine (follows_condition (h.expr scope) _).bind fun condition =>
    (follows_body h.statement scope).bind ?_
  rintro ⟨grown, yes⟩
  exact (follows_accept _).bind fun _ => .ite ((follows_body h.statement grown).map _)
    (follows_pure (grown, [Statement.branch condition yes [] loc]))

theorem follows_loop :
    Follows room (Parser.loop level scope loc) (Parser.loop level' scope loc) :=
  (follows_condition (h.expr scope) _).bind fun _ => (follows_body h.statement scope).map _

end

theorem follows_statementWith {room : Nat} {flat : Scope → Counted Parser.Body}
    {flat' : Scope → Parser Parser.Body} {level : Parser.Level Session Halt}
    {inner : Opening Stream ParseError (Parser.Level Stream ParseError)} {scope : Scope}
    (hflat : Follows room (flat scope) (flat' scope))
    (hinner : Opens FollowsLevel room level inner) :
    Follows room (Parser.statementWith flat (opening level) scope)
      (Parser.statementWith flat' inner scope) := by
  refine follows_peek.bind fun t => ?_
  obtain ⟨kind, span⟩ := t
  cases kind with
  | symbol symbol =>
    cases symbol with
    | lbrace =>
      exact .enter hinner fun h => follows_advance.bind fun _ => follows_block h.statement scope
    | _ => exact hflat
  | keyword word =>
    cases word with
    | ifKw =>
      exact .enter hinner fun h => follows_advance.bind fun _ => follows_branch h scope span.start
    | whileKw =>
      exact .enter hinner fun h => follows_advance.bind fun _ => follows_loop h scope span.start
    | _ => exact hflat
  | _ => exact hflat

theorem follows_statement (room : Nat) (scope : Scope) :
    Follows room (statement scope) (Parser.statement room scope) := by
  refine follows_descend ?_ room scope
  intro room self scope hself
  have hflat := follows_flat (follows_unary scope room) (follows_args scope room) scope
  cases room with
  | zero => exact follows_statementWith hflat .shut
  | succ room =>
    exact follows_statementWith hflat (.into ⟨(follows_expr · room), hself room rfl⟩)

/-! ### Items -/

section

variable {room : Nat}

theorem follows_functionOf {p : Scope → Counted Parser.Body} {q : Scope → Parser Parser.Body}
    (h : ∀ scope, Follows room (p scope) (q scope)) :
    Follows room (Parser.functionOf p) (Parser.functionOf q) :=
  follows_peek.bind fun t => (follows_expect _ _).bind fun _ =>
    (follows_name _).bind fun (n, _) => (follows_expect _ _).bind fun _ =>
    follows_params.bind fun scope => (follows_expect _ _).bind fun _ =>
    (follows_expect _ _).bind fun _ => follows_type.bind fun returns =>
    (follows_expect _ _).bind fun _ => (follows_statements h scope).bind fun (scope, body) =>
    (follows_expect _ _).map fun _ =>
      (⟨n, returns, scope.params, scope.locals, body, t.loc⟩ : Function)

theorem follows_globalOf {p : Counted Expr} {q : Parser Expr} (h : Follows room p q) :
    Follows room (Parser.globalOf p) (Parser.globalOf q) :=
  (follows_name _).bind fun (n, span) => follows_declaration h n span.start

theorem follows_itemOf {level : Parser.Level Session Halt}
    {level' : Parser.Level Stream ParseError} (h : FollowsLevel room level level') :
    Follows room (Parser.itemOf level) (Parser.itemOf level') := by
  refine follows_peek.bind fun t => ?_
  obtain ⟨kind, span⟩ := t
  cases kind with
  | keyword word =>
    cases word with
    | funKw => exact (follows_functionOf h.statement).map Item.function
    | _ => exact follows_unexpected _
  | ident n => exact (follows_globalOf (h.expr Scope.empty)).map Item.global
  | _ => exact follows_unexpected _

end

theorem follows_item : Follows maxNesting (Parser.itemOf ⟨expr, statement⟩) Parser.item :=
  follows_itemOf ⟨(follows_expr · maxNesting), follows_statement maxNesting⟩

/-- One more item, unless the source is at its end. -/
def itemRound (found : List Item) : Parser (Option (List Item)) := do
  if (← Parser.peek).kind = .eos then return none
  return some (found ++ [← Parser.item])

/-- Reading items is a loop. -/
theorem iterate_itemRound (found : List Item) (s : Stream) :
    Parser.iterate itemRound found s =
      match (Reading.ofStream s).error with
      | none => .ok (found ++ (Reading.ofStream s).items) (Reading.ofStream s).rest
      | some e => .error e (Reading.ofStream s).rest := by
  induction hsize : s.size using Nat.strongRecOn generalizing found s with
  | _ n ih =>
    have hround : itemRound found s = (if s.current.kind = .eos then pure none
        else do return some (found ++ [← Parser.item]) : Parser (Option (List Item))) s := by
      rw [itemRound, Parser.peek_bind]
    rw [Reading.ofStream]
    by_cases heos : s.current.kind = .eos
    · rw [if_pos heos] at hround
      rw [Parser.iterate_of_none hround, if_pos heos]
      simp
    · rw [if_neg heos] at hround
      rw [if_neg heos]
      cases hitem : Parser.item s with
      | error e s' =>
        rw [Parser.bind_of_error hitem] at hround
        exact Parser.iterate_of_error hround
      | ok item s' =>
        rw [Parser.bind_of_ok hitem] at hround
        by_cases hlt : s'.size < s.size
        · rw [Parser.iterate_of_some hround hlt, ih _ (hsize ▸ hlt) (found ++ [item]) s' rfl]
          simp [hlt]
        · rw [Parser.iterate_of_still hround hlt]
          simp [hlt]

theorem program_eq_iterate :
    Parser.program = (do return Program.ofItems (← Parser.iterate itemRound [])) := by
  funext s
  have hloop := iterate_itemRound [] s
  rw [Parser.program, Reading.result]
  cases herror : (Reading.ofStream s).error with
  | none =>
    rw [herror] at hloop
    rw [Parser.bind_of_ok hloop]
    rfl
  | some e =>
    rw [herror] at hloop
    rw [Parser.bind_of_error hloop]

theorem follows_program : Follows maxNesting program Parser.program := by
  have hitems : Follows maxNesting items (Parser.iterate itemRound []) :=
    .iterate (fun found => follows_peek.bind fun t => .ite (follows_pure none)
      (follows_item.map fun item => some (found ++ [item]))) []
  rw [program_eq_iterate]
  exact hitems.map Program.ofItems

end Counted

/-! ### Calls -/

namespace Session

/-- What a call answers if the tokens left are to be parsed as `x` says. -/
def Call.outcome (c : Call) : EStateM.Result ParseError Stream Program → Except Halt Answer × Stream
  | .ok p rest => (.ok (c.answer p), rest)
  | .error e rest => (.error (.error e), rest)

/-- A call with nothing open answers what the parser does, and leaves nothing open. -/
theorem call_eq {s : Session} (h : s.depth = 0) (c : Call) :
    ∃ trail, Counted.InLimits trail ∧
      s.call c = ((c.outcome (Parser.program s.stream)).1,
        ⟨(c.outcome (Parser.program s.stream)).2, 0, trail ++ s.trail⟩) := by
  obtain ⟨trail, htrail, hrun⟩ := Counted.follows_program s (by omega) (by omega)
  refine ⟨trail, htrail, ?_⟩
  rw [call, hrun, h]
  cases Parser.program s.stream <;> rfl

/-- After any calls nothing is open, and the counter has kept to its limits. -/
theorem calls_balanced (cs : List Call) {s : Session} (h : s.depth = 0)
    (htrail : Counted.InLimits s.trail) :
    (s.calls cs).2.depth = 0 ∧ Counted.InLimits (s.calls cs).2.trail := by
  induction cs generalizing s with
  | nil => exact ⟨h, htrail⟩
  | cons c cs ih =>
    obtain ⟨trail, hnew, hcall⟩ := call_eq h c
    rw [calls, hcall]
    exact ih rfl (Counted.inLimits_append hnew htrail)

theorem eq_fresh_of_ofStream {stream : Stream} {s : Session} (h : ofStream stream = .ok s) :
    s = fresh stream := by
  rw [ofStream] at h
  cases hchecked : Parser.checked stream with
  | error e rest =>
    rw [hchecked] at h
    exact nomatch h
  | ok u rest =>
    rw [hchecked] at h
    rw [← Except.ok.inj h, (Parser.checked_eq_ok.1 hchecked).2]

/-- Whatever calls a session has answered, failed ones included, nothing is open in it:
    the counter is at zero in front of the next call and behind it, and has at no time gone
    below zero or above the limit.  The next call answers as the parser does that has all
    its room, and as a session does that is fresh in front of the same tokens; where a
    session can be built there, it is that one. -/
theorem call_after_calls {source : Source} {session : Session}
    (h : ofSource source = .ok session) (cs : List Call) (c : Call) :
    let s := (session.calls cs).2
    s.depth = 0 ∧ (s.call c).2.depth = 0 ∧
      (∀ n ∈ (s.call c).2.trail, 0 ≤ n ∧ n ≤ maxNesting) ∧
      ((s.call c).1, (s.call c).2.stream) = c.outcome (Parser.program s.stream) ∧
      (s.call c).1 = ((fresh s.stream).call c).1 ∧
      (s.call c).2.stream = ((fresh s.stream).call c).2.stream ∧
      ∀ built, ofStream s.stream = .ok built → built = fresh s.stream := by
  intro s
  obtain rfl := eq_fresh_of_ofStream h
  have hempty : Counted.InLimits (fresh (Stream.ofSource source)).trail := by
    simp [fresh, Counted.InLimits]
  obtain ⟨hdepth, htrail⟩ := calls_balanced cs rfl hempty
  obtain ⟨trail, hnew, hcall⟩ := call_eq hdepth c
  obtain ⟨trail', -, hfresh⟩ := call_eq (s := fresh s.stream) rfl c
  refine ⟨hdepth, ?_, ?_, ?_, ?_, ?_, fun built => eq_fresh_of_ofStream⟩
  · rw [hcall]
  · rw [hcall]
    exact Counted.inLimits_append hnew htrail
  · rw [hcall]
  · rw [hcall, hfresh]
    rfl
  · rw [hcall, hfresh]
    rfl

namespace Reuse

/-- A declaration that fails within two parentheses, in front of another one. -/
def source : Source :=
  Source.ofString "g:int=((1 h:int;"

/-- What is left behind the error. -/
def rest : Source :=
  Source.ofString "          h:int;"

def error : ParseError :=
  ⟨.unexpected "')' after expression" (.ident "h"), ⟨⟨1, 11⟩, ⟨1, 12⟩⟩⟩

theorem outcome_source :
    Call.outcome .program (Parser.program (Stream.ofSource source)) =
      (.error (.error error), Stream.ofSource rest) := by
  decide +kernel

theorem outcome_rest :
    (Call.outcome .program (Parser.program (Stream.ofSource rest))).1 =
      .ok (.program ⟨[⟨"h", ⟨.int, 0⟩, ⟨1, 11⟩⟩], []⟩) := by
  decide +kernel

end Reuse

theorem call_after_calls_sample :
    ∃ session, ofSource Reuse.source = .ok session ∧
      (session.call .program).1 = .error (.error Reuse.error) ∧
      (session.call .program).2.depth = 0 ∧
      ((session.call .program).2.call .program).1 =
        .ok (.program ⟨[⟨"h", ⟨.int, 0⟩, ⟨1, 11⟩⟩], []⟩) := by
  have hbuilt : ofSource Reuse.source = .ok (fresh (Stream.ofSource Reuse.source)) := rfl
  obtain ⟨-, hdepth, -, hfirst, -⟩ := call_after_calls hbuilt [] .program
  obtain ⟨-, -, -, hsecond, -⟩ := call_after_calls hbuilt [.program] .program
  change (_, _) = Call.outcome .program (Parser.program (Stream.ofSource Reuse.source)) at hfirst
  rw [Reuse.outcome_source] at hfirst
  obtain ⟨hanswer, hstream⟩ := Prod.mk.inj hfirst
  change (_, _) = Call.outcome .program
    (Parser.program ((fresh (Stream.ofSource Reuse.source)).call .program).2.stream) at hsecond
  change ((fresh (Stream.ofSource Reuse.source)).call .program).2.stream = _ at hstream
  rw [hstream] at hsecond
  refine ⟨_, hbuilt, hanswer, hdepth, ?_⟩
  exact (congrArg Prod.fst hsecond).trans Reuse.outcome_rest

end Session
end Shc
