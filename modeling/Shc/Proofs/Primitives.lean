import Shc.Proofs.ParserRun

/-!
# What parsers are made of

Every parser looks at the current token, consumes it, fails or answers, and does so in
sequence or in a loop.  `Built p` says that `p` is made of these primitives and of
nothing else, so a property of parsers that the primitives have and that sequencing and
the loop keep is a property of every parser.

`Sighted front seen p` says more: where `p` fails of its own accord, the error is not
lexical and concerns a token that `p` has looked at, or one of the tokens `seen` that were
looked at before.  The one exception is a run of markers in front of a call, whose error
goes from the first marker to the end of the name; `marked` counts as a primitive here.
Markers are consumed by whole runs only: any other token that is consumed is known to be
the current one, which `front` says, and to be no marker.  A parser is covered by following
its definition once.
-/

namespace Shc.Parser

open Token (Kind)

/-- Parsers made of the primitives by sequencing and by the loop. -/
inductive Built : {α : Type} → Parser α → Prop where
  | pure {α : Type} (a : α) : Built (Pure.pure a : Parser α)
  | fail {α : Type} (kind : ParseError.Kind) (span : Span) :
      Built (Parser.fail kind span : Parser α)
  | peek : Built Parser.peek
  | advance : Built Parser.advance
  | bind {α β : Type} {p : Parser α} {k : α → Parser β} :
      Built p → (∀ a, Built (k a)) → Built (p >>= k)
  | iterate {β : Type} {step : β → Parser (Option β)} (b : β) :
      (∀ b, Built (step b)) → Built (Parser.iterate step b)

/-- Parsers made of the primitives whose errors concern tokens that have been looked at,
    `seen` being those looked at before, and which consume markers by whole runs.  The
    current token is `front` where that is known. -/
inductive Sighted : {α : Type} → Option Token → List Token → Parser α → Prop where
  | pure {α : Type} {front : Option Token} {seen : List Token} (a : α) :
      Sighted front seen (Pure.pure a : Parser α)
  | fail {α : Type} {front : Option Token} {seen : List Token} {t : Token}
      {kind : ParseError.Kind} :
      t ∈ seen → (∀ e, kind ≠ .lex e) → Sighted front seen (Parser.fail kind t.span : Parser α)
  | peek {β : Type} {front : Option Token} {seen : List Token} {k : Token → Parser β} :
      (∀ t, Sighted (some t) (t :: seen) (k t)) → Sighted front seen (Parser.peek >>= k)
  | advance {seen : List Token} {t : Token} : t.kind ≠ .symbol .caret →
      Sighted (some t) seen Parser.advance
  | markers {front : Option Token} {seen : List Token} : Sighted front seen Parser.markers
  | marked {seen : List Token} {t : Token} (scope : Scope) : t.kind = .symbol .caret →
      Sighted (some t) seen (Parser.marked scope)
  | bind {α β : Type} {front : Option Token} {seen : List Token} {p : Parser α}
      {k : α → Parser β} :
      Sighted front seen p → (∀ a, Sighted none seen (k a)) → Sighted front seen (p >>= k)
  | iterate {β : Type} {front : Option Token} {seen : List Token}
      {step : β → Parser (Option β)} (b : β) :
      (∀ b, Sighted none seen (step b)) → Sighted front seen (Parser.iterate step b)

theorem Built.ite {α : Type} {c : Prop} [Decidable c] {p q : Parser α} (hp : Built p)
    (hq : Built q) : Built (if c then p else q) := by
  by_cases hc : c
  · rwa [if_pos hc]
  · rwa [if_neg hc]

namespace Sighted

variable {α β : Type} {front : Option Token} {seen : List Token}

theorem ite_of {c : Prop} [Decidable c] {p q : Parser α} (hp : c → Sighted front seen p)
    (hq : ¬ c → Sighted front seen q) : Sighted front seen (if c then p else q) := by
  by_cases hc : c
  · rw [if_pos hc]
    exact hp hc
  · rw [if_neg hc]
    exact hq hc

theorem ite {c : Prop} [Decidable c] {p q : Parser α} (hp : Sighted front seen p)
    (hq : Sighted front seen q) : Sighted front seen (if c then p else q) :=
  ite_of (fun _ => hp) fun _ => hq

theorem map {p : Parser α} (h : Sighted front seen p) (f : α → β) :
    Sighted front seen (do return f (← p)) :=
  h.bind fun a => .pure (f a)

end Sighted

section

variable {α β : Type} {front : Option Token} {seen : List Token}

/-! ### Single tokens -/

theorem sighted_unexpected (expected : String) :
    Sighted front seen (unexpected expected : Parser α) :=
  .peek fun _ => .fail List.mem_cons_self nofun

theorem sighted_tooDeep : Sighted front seen (tooDeep : Parser α) :=
  .peek fun _ => .fail List.mem_cons_self nofun

theorem sighted_accept {kind : Kind} (h : kind ≠ .symbol .caret) :
    Sighted front seen (accept kind) :=
  .peek fun _ => .ite_of (fun ht => .bind (.advance (ht ▸ h)) fun _ => .pure true)
    fun _ => .pure false

theorem sighted_expect {kind : Kind} (h : kind ≠ .symbol .caret) (what : String) :
    Sighted front seen (expect kind what) :=
  .peek fun _ => .ite_of (fun ht => .bind (.advance (ht ▸ h)) fun _ => .pure ())
    fun _ => sighted_unexpected what

/-- The token of a name has been looked at by what comes behind it. -/
theorem Sighted.name_bind {what : String} {k : String × Span → Parser β}
    (h : ∀ n span, Sighted none (⟨.ident n, span⟩ :: seen) (k (n, span))) :
    Sighted front seen (name what >>= k) := by
  have hunexpected : unexpected what >>= k = unexpected what := rfl
  unfold name
  rw [bind_assoc]
  refine .peek fun t => ?_
  obtain ⟨kind, span⟩ := t
  cases kind with
  | ident n =>
    rw [bind_assoc]
    exact .bind (.advance (by simp)) fun _ => h n span
  | _ =>
    dsimp only
    rw [hunexpected]
    exact sighted_unexpected what

theorem Sighted.acceptLoop {kind : Kind} (hkind : kind ≠ .symbol .caret)
    {more : β → Parser (Option β)} (h : ∀ b, Sighted none seen (more b)) (b : β) :
    Sighted front seen
      (Parser.iterate (fun b => do if ← accept kind then more b else return none) b) :=
  .iterate b fun b => (sighted_accept hkind).bind fun _ => .ite (h b) (.pure none)

theorem Sighted.commaList {p : Parser α} (h : ∀ front, Sighted front seen p) :
    Sighted front seen (commaList p) :=
  (h front).bind fun first =>
    .acceptLoop (by decide) (fun found => (h none).bind fun a => .pure (some (found ++ [a])))
      [first]

/-! ### Types and parameters -/

/-- A token that means something to `f` is no marker if a marker means nothing. -/
theorem kind_ne_caret {f : Kind → Option α} (hf : f (.symbol .caret) = none) {t : Token} {a : α}
    (h : f t.kind = some a) : t.kind ≠ .symbol .caret := by
  intro ht
  rw [ht, hf] at h
  cases h

theorem sighted_type : Sighted front seen type := by
  refine Sighted.markers.bind fun depth => .peek fun t => ?_
  cases hbase : base? t.kind with
  | some base =>
    exact .bind (.advance (kind_ne_caret rfl hbase)) fun _ => .pure (⟨base, depth⟩ : Ty)
  | none => exact sighted_unexpected _

theorem sighted_param (scope : Scope) : Sighted front seen (param scope) := by
  refine .name_bind fun n span => (sighted_expect (by decide) _).bind fun _ =>
    sighted_type.bind fun type => ?_
  cases scope.declareParam? ⟨n, type, span.start⟩ with
  | some grown => exact .pure grown
  | none => exact .fail (t := ⟨.ident n, span⟩) List.mem_cons_self nofun

theorem sighted_params : Sighted front seen params := by
  refine .peek fun t => .ite (.pure Scope.empty) ?_
  refine (sighted_param Scope.empty).bind fun scope =>
    .acceptLoop (by decide) (fun scope => ?_) scope
  exact (sighted_param scope).bind fun grown => .pure (some grown)

/-! ### Expressions -/

theorem sighted_resolve (scope : Scope) (n : String) {t : Token} (h : t ∈ seen) (usage : Nat)
    (loc : Location) : Sighted front seen (resolve scope n t.span usage loc) := by
  unfold resolve
  cases scope.find? n with
  | some decl => exact .pure (⟨decl, usage, loc⟩ : Reference)
  | none => exact .fail h nofun

end

section

variable {front : Option Token} {seen : List Token} {p : Parser Unary}
  (h : ∀ front seen, Sighted front seen p)

theorem sighted_chain (layer : Layer) {p : Parser Value} (h : ∀ front seen, Sighted front seen p) :
    Sighted front seen (chain layer p) := by
  refine .peek fun start => (h _ _).bind fun first =>
    .iterate (Value.leaf first start.loc) fun left => .peek fun t => ?_
  cases hop : operator? layer t.kind with
  | none => exact .pure none
  | some op =>
    exact .bind (.advance (kind_ne_caret rfl hop)) fun _ => (h _ _).bind fun right =>
      .pure (some (left.extend op right))

include h

theorem sighted_valueOf : Sighted front seen (valueOf p) := by
  unfold valueOf
  induction Layer.all generalizing front seen with
  | nil => exact (h front seen).map Value.unary
  | cons layer layers ih => exact sighted_chain layer fun front seen => ih

theorem sighted_exprOf : Sighted front seen (exprOf p) :=
  (sighted_valueOf h).map Expr.single

theorem sighted_argsOf : Sighted front seen (argsOf p) := by
  have hclose : ∀ (seen : List Token) (args : List Expr),
      Sighted none seen (do expect (.symbol .rparen) "')' after arguments"; return args) :=
    fun _ args => (sighted_expect (by decide) _).bind fun _ => .pure args
  exact .peek fun t =>
    .ite ((Sighted.pure []).bind (hclose _))
      ((Sighted.commaList fun _ => sighted_exprOf h).bind (hclose _))

end

/-- What is parsed inside a construct has the property of all parsers. -/
theorem Sighted.enter {ι α : Type} {P : ι → Prop} {inner : Opening Stream ParseError ι}
    (hinner : inner.Leads P) {front : Option Token} {seen : List Token} {k : ι → Parser α}
    (hk : ∀ i, P i → Sighted front seen (k i)) : Sighted front seen (inner.enter k) := by
  cases hinner with
  | shut => exact sighted_tooDeep
  | into h => exact hk _ h

section

variable {inner : Opening Stream ParseError (Parser Unary)}
  (hinner : inner.Leads fun p => ∀ front seen, Sighted front seen p)
  {front : Option Token} {seen : List Token} (scope : Scope)

include hinner

theorem sighted_factor : Sighted front seen (factor scope inner) := by
  refine .peek fun t => ?_
  obtain ⟨kind, span⟩ := t
  cases kind with
  | int value => exact .bind (.advance (by simp)) fun _ => .pure (Factor.const value span.start)
  | char c => exact .bind (.advance (by simp)) fun _ => .pure (Factor.const c.toNat span.start)
  | bool b =>
    exact .bind (.advance (by simp)) fun _ => .pure (Factor.const (if b then 1 else 0) span.start)
  | string value => exact .bind (.advance (by simp)) fun _ => .pure (Factor.string value span.start)
  | symbol symbol =>
    cases symbol with
    | lparen =>
      exact .enter hinner fun p h => .bind (.advance (by simp)) fun _ =>
        (sighted_exprOf h).bind fun e =>
          (sighted_expect (by decide) _).bind fun _ => .pure (Factor.paren e span.start)
    | _ => exact sighted_unexpected _
  | ident n =>
    refine .bind (.advance (by simp)) fun _ => (sighted_accept (by decide)).bind fun _ => .ite ?_ ?_
    · exact (Sighted.enter hinner fun p h => sighted_argsOf h).map fun args =>
        Factor.call (.placeholder n span.start) args span.start
    · exact (sighted_resolve scope n List.mem_cons_self 0 span.start).map Factor.var
  | keyword => exact sighted_unexpected _
  | eos => exact sighted_unexpected _
  | error => exact sighted_unexpected _

theorem sighted_unaryWith : Sighted front seen (unaryWith scope inner) := by
  refine .peek fun t => ?_
  cases hsign : sign? t.kind with
  | some sign =>
    exact .enter hinner fun p h => .bind (.advance (kind_ne_caret rfl hsign)) fun _ =>
      (h _ _).map fun operand => Unary.signed sign operand t.loc
  | none =>
    refine .ite_of (fun ht => ?_) fun _ => ?_
    · exact (Sighted.marked scope ht).map fun r => Unary.factor (.var r)
    · exact (sighted_factor hinner scope).map Unary.factor

end

theorem sighted_unary {front : Option Token} {seen : List Token} (scope : Scope) (room : Nat) :
    Sighted front seen (unary scope room) := by
  induction room generalizing front seen with
  | zero => exact sighted_unaryWith .shut scope
  | succ room ih => exact sighted_unaryWith (.into fun _ _ => ih) scope

theorem sighted_args {front : Option Token} {seen : List Token} (scope : Scope) (room : Nat) :
    Sighted front seen (args scope room) := by
  cases room with
  | zero => exact sighted_tooDeep
  | succ room => exact sighted_argsOf fun _ _ => sighted_unary scope room

/-! ### Statements -/

theorem sighted_semicolon {front : Option Token} {seen : List Token} :
    Sighted front seen semicolon :=
  sighted_expect (by decide) _

section

variable {front : Option Token} {seen : List Token} {e : Parser Expr}
  (h : ∀ front seen, Sighted front seen e)

include h

theorem sighted_condition (keyword : Keyword) : Sighted front seen (condition keyword e) :=
  .peek fun t => (sighted_expect (by decide) _).bind fun _ => (h _ _).bind fun e =>
    (sighted_expect (by decide) _).bind fun _ => .pure (Factor.paren e t.loc)

theorem sighted_declaration (n : String) (loc : Location) :
    Sighted front seen (declaration e n loc) := by
  refine (sighted_expect (by decide) _).bind fun _ => sighted_type.bind fun type =>
    (sighted_accept (by decide)).bind fun found => ?_
  have hend : Sighted none seen (do
      let t ← peek
      if t.kind = .symbol .comma then fail .multipleDeclarations t.span
      semicolon
      return (⟨n, type, loc⟩ : Variable)) :=
    .peek fun _ => .ite
      (.bind (.fail List.mem_cons_self nofun) fun _ =>
        sighted_semicolon.bind fun _ => .pure (⟨n, type, loc⟩ : Variable))
      (sighted_semicolon.bind fun _ => .pure (⟨n, type, loc⟩ : Variable))
  exact .ite ((h _ _).bind fun _ => hend) hend

theorem sighted_ret (loc : Location) : Sighted front seen (ret e loc) := by
  have hend : ∀ (seen : List Token) (value : Option Expr),
      Sighted none seen (do semicolon; return Statement.ret value loc) :=
    fun _ value => sighted_semicolon.bind fun _ => .pure (Statement.ret value loc)
  exact .peek fun _ => .ite ((Sighted.pure none).bind (hend _)) (((h _ _).map some).bind (hend _))

end

theorem sighted_assignment {front : Option Token} {seen : List Token} {p : Parser Unary}
    (h : ∀ front seen, Sighted front seen p) (target : Reference) (loc : Location) :
    Sighted front seen (assignment (valueOf p) target loc) :=
  (sighted_expect (by decide) _).bind fun _ => (sighted_valueOf h).bind fun value =>
    sighted_semicolon.bind fun _ => .pure (Statement.assign ⟨some target, value, loc⟩ loc)

section

variable {front : Option Token} {seen : List Token} (room : Nat) (scope : Scope)

theorem sighted_expr : Sighted front seen (expr scope room) :=
  sighted_exprOf fun _ _ => sighted_unary scope room

theorem sighted_named :
    Sighted front seen (named scope (unary scope room) (args scope room)) := by
  refine .name_bind fun n span => .peek fun t => ?_
  have hname : (⟨.ident n, span⟩ : Token) ∈ t :: ⟨.ident n, span⟩ :: seen :=
    List.mem_cons_of_mem _ List.mem_cons_self
  obtain ⟨kind, tokenSpan⟩ := t
  cases kind with
  | symbol symbol =>
    cases symbol with
    | colon =>
      refine (sighted_declaration (fun _ _ => sighted_expr room scope) n span.start).bind
        fun v => ?_
      cases scope.declareLocal? v with
      | some grown => exact .pure (grown, [Statement.declare v span.start])
      | none => exact .fail hname nofun
    | lparen =>
      exact .bind (.advance (by simp)) fun _ => (sighted_args scope room).bind fun args =>
        sighted_semicolon.bind fun _ =>
        .pure (scope, [Statement.call (.placeholder n span.start) args span.start])
    | eq =>
      exact (sighted_resolve scope n hname 0 span.start).bind fun target =>
        (sighted_assignment (fun _ _ => sighted_unary scope room) target span.start).map
          fun statement => (scope, [statement])
    | _ => exact sighted_unexpected _
  | _ => exact sighted_unexpected _

theorem sighted_flat : Sighted front seen (flatAt room scope) := by
  refine .peek fun t => ?_
  obtain ⟨kind, span⟩ := t
  cases kind with
  | keyword word =>
    cases word with
    | breakKw =>
      exact .bind (.advance (by simp)) fun _ => sighted_semicolon.bind fun _ =>
        .pure (scope, [Statement.brk span.start])
    | continueKw =>
      exact .bind (.advance (by simp)) fun _ => sighted_semicolon.bind fun _ =>
        .pure (scope, [Statement.cont span.start])
    | returnKw =>
      exact .bind (.advance (by simp)) fun _ =>
        (sighted_ret (fun _ _ => sighted_expr room scope) span.start).map fun statement =>
        (scope, [statement])
    | _ => exact sighted_unexpected _
  | symbol symbol =>
    cases symbol with
    | semicolon => exact .bind (.advance (by simp)) fun _ => .pure (scope, [])
    | caret =>
      exact (Sighted.marked scope rfl).bind fun target =>
        (sighted_assignment (fun _ _ => sighted_unary scope room) target span.start).map
          fun statement => (scope, [statement])
    | _ => exact sighted_unexpected _
  | ident n => exact sighted_named room scope
  | _ => exact sighted_unexpected _

end

section

variable {front : Option Token} {seen : List Token} {p : Scope → Parser Body}
  (h : ∀ scope front seen, Sighted front seen (p scope))

include h

theorem sighted_statements (scope : Scope) : Sighted front seen (statements p scope) :=
  .iterate (scope, []) fun (scope, found) => .peek fun _ => .ite (.pure none)
    ((h scope _ _).bind fun (grown, new) => .pure (some (grown, found ++ new)))

theorem sighted_block (scope : Scope) : Sighted front seen (block p scope) :=
  (sighted_statements h scope).bind fun body =>
    (sighted_expect (by decide) _).bind fun _ => .pure body

theorem sighted_body (scope : Scope) : Sighted front seen (body p scope) :=
  (sighted_accept (by decide)).bind fun _ => .ite (sighted_block h scope) (h scope _ _)

end

/-- Both parsers of the level have the property of all parsers. -/
structure SightedLevel (level : Level Stream ParseError) : Prop where
  expr : ∀ scope front seen, Sighted front seen (level.expr scope)
  statement : ∀ scope front seen, Sighted front seen (level.statement scope)

section

variable {front : Option Token} {seen : List Token} {level : Level Stream ParseError}
  (h : SightedLevel level) (scope : Scope) (loc : Location)

include h

theorem sighted_branch : Sighted front seen (branch level scope loc) :=
  (sighted_condition (h.expr scope) _).bind fun condition =>
    (sighted_body h.statement scope).bind fun (scope₁, yes) =>
    (sighted_accept (by decide)).bind fun _ => .ite
      ((sighted_body h.statement scope₁).bind fun (scope₂, no) =>
        .pure (scope₂, [Statement.branch condition yes no loc]))
      (.pure (scope₁, [Statement.branch condition yes [] loc]))

theorem sighted_loop : Sighted front seen (loop level scope loc) :=
  (sighted_condition (h.expr scope) _).bind fun condition =>
    (sighted_body h.statement scope).bind fun (grown, inner) =>
    .pure (grown, [Statement.loop condition inner loc])

end

theorem sighted_statementWith {front : Option Token} {seen : List Token}
    {flat : Scope → Parser Body}
    {inner : Opening Stream ParseError (Level Stream ParseError)} {scope : Scope}
    (hflat : ∀ front seen, Sighted front seen (flat scope)) (hinner : inner.Leads SightedLevel) :
    Sighted front seen (statementWith flat inner scope) := by
  refine .peek fun t => ?_
  split
  · rename_i hkind
    exact .enter hinner fun level h => .bind (.advance (by simp [hkind])) fun _ =>
      sighted_block h.statement scope
  · rename_i hkind
    exact .enter hinner fun level h => .bind (.advance (by simp [hkind])) fun _ =>
      sighted_branch h scope t.loc
  · rename_i hkind
    exact .enter hinner fun level h => .bind (.advance (by simp [hkind])) fun _ =>
      sighted_loop h scope t.loc
  · exact hflat _ _

theorem sighted_statement {front : Option Token} {seen : List Token} (room : Nat) (scope : Scope) :
    Sighted front seen (statement room scope) := by
  induction room generalizing scope front seen with
  | zero => exact sighted_statementWith (fun _ _ => sighted_flat 0 scope) .shut
  | succ room ih =>
    exact sighted_statementWith (fun _ _ => sighted_flat (room + 1) scope)
      (.into ⟨fun scope _ _ => sighted_expr room scope, fun scope _ _ => ih scope⟩)

/-! ### Items -/

section

variable {front : Option Token} {seen : List Token}

theorem sighted_function : Sighted front seen function :=
  .peek fun t => (sighted_expect (by decide) _).bind fun _ => .name_bind fun n _ =>
    (sighted_expect (by decide) _).bind fun _ => sighted_params.bind fun scope =>
    (sighted_expect (by decide) _).bind fun _ => (sighted_expect (by decide) _).bind fun _ =>
    sighted_type.bind fun returns => (sighted_expect (by decide) _).bind fun _ =>
    (sighted_statements (fun scope _ _ => sighted_statement maxNesting scope) scope).bind
      fun (scope, body) => (sighted_expect (by decide) _).bind fun _ =>
    .pure (⟨n, returns, scope.params, scope.locals, body, t.loc⟩ : Function)

theorem sighted_global : Sighted front seen global :=
  .name_bind fun n span =>
    sighted_declaration (fun _ _ => sighted_expr maxNesting Scope.empty) n span.start

theorem sighted_item : Sighted front seen item := by
  refine .peek fun t => ?_
  split
  · exact sighted_function.map Item.function
  · exact sighted_global.map Item.global
  · exact sighted_unexpected _

end

/-! ### Without regard to errors -/

theorem built_accept (kind : Kind) : Built (accept kind) :=
  .bind .peek fun _ => .ite (.bind .advance fun _ => .pure true) (.pure false)

theorem built_markers : Built markers :=
  .iterate 0 fun n => (built_accept _).bind fun _ => .ite (.pure (some (n + 1))) (.pure none)

theorem built_marked (scope : Scope) : Built (marked scope) := by
  refine .bind .peek fun first => built_markers.bind fun usage => .bind .peek fun t => ?_
  obtain ⟨kind, span⟩ := t
  cases kind with
  | ident n =>
    refine .bind .advance fun _ => .bind .peek fun _ => .ite (.fail _ _) ?_
    unfold resolve
    cases scope.find? n with
    | some decl => exact .pure (⟨decl, usage, first.loc⟩ : Reference)
    | none => exact .fail _ _
  | _ => exact .fail _ _

theorem Sighted.built {α : Type} {front : Option Token} {seen : List Token} {p : Parser α}
    (h : Sighted front seen p) : Built p := by
  induction h with
  | pure a => exact .pure a
  | fail _ _ => exact .fail _ _
  | peek _ ih => exact .bind .peek ih
  | advance _ => exact .advance
  | markers => exact built_markers
  | marked scope _ => exact built_marked scope
  | bind _ _ ihp ihk => exact .bind ihp ihk
  | iterate b _ ih => exact .iterate b ih

theorem built_item : Built item :=
  (sighted_item : Sighted none [] item).built

end Shc.Parser
