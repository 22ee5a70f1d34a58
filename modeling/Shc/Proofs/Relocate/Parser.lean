import Shc.Proofs.ParserRun
import Shc.Proofs.Relocate.Basic

/-!
# Parsing does not look at places

A parser copies places from tokens into its result and never compares them.  So
moving the places of the tokens moves those of the result, or of the error, and
changes nothing else.  `Moves f p q` says this of a parser `p` and of the parser
`q` that is `p` with the places in its parameters moved.  It is closed under
sequencing and under the loop, and each parser is covered by following its
definition.
-/

namespace Shc

open Token (Kind)

namespace Stream

variable (f : Location → Location)

@[simp] theorem current_relocate (s : Stream) :
    (relocate f s).current = relocate f s.current :=
  rfl

@[simp] theorem size_relocate (s : Stream) : (relocate f s).size = s.size :=
  rfl

theorem toList_relocate (s : Stream) : (relocate f s).toList = relocate f s.toList :=
  rfl

theorem tail_relocate (s : Stream) : (relocate f s).tail = relocate f s.tail := by
  obtain ⟨current, later, size, hsize⟩ := s
  cases later <;> rfl

end Stream

@[simp] theorem Token.kind_relocate (f : Location → Location) (t : Token) :
    (relocate f t).kind = t.kind :=
  rfl

namespace Parser

/-- The outcome of a parser with its places moved. -/
def movedResult {α : Type} [Relocate α] (f : Location → Location) :
    EStateM.Result ParseError Stream α → EStateM.Result ParseError Stream α
  | .ok a s => .ok (relocate f a) (relocate f s)
  | .error e s => .error (relocate f e) (relocate f s)

/-- On moved tokens `q` does what `p` does on the tokens themselves. -/
def Moves {α : Type} [Relocate α] (f : Location → Location) (p q : Parser α) : Prop :=
  ∀ s, q (relocate f s) = movedResult f (p s)

section

variable {α β : Type} [Relocate α] [Relocate β] {f : Location → Location}

/-! ### Sequencing -/

theorem Moves.bind {p q : Parser α} {k k' : α → Parser β} (h : Moves f p q)
    (hk : ∀ a, Moves f (k a) (k' (relocate f a))) : Moves f (p >>= k) (q >>= k') := by
  intro s
  show EStateM.bind q k' _ = movedResult f (EStateM.bind p k s)
  unfold EStateM.bind
  rw [h s]
  cases p s with
  | ok a s' => exact hk a s'
  | error e s' => rfl

theorem Moves.peek_bind {k k' : Token → Parser β}
    (hk : ∀ t, Moves f (k t) (k' (relocate f t))) : Moves f (peek >>= k) (peek >>= k') :=
  fun s => hk s.current s

theorem moves_pure (a : α) : Moves f (pure a : Parser α) (pure (relocate f a)) :=
  fun _ => rfl

theorem moves_fail (kind : ParseError.Kind) (span : Span) :
    Moves f (fail kind span : Parser α) (fail kind (relocate f span)) :=
  fun _ => rfl

theorem moves_unexpected (expected : String) :
    Moves f (unexpected expected : Parser α) (unexpected expected) :=
  fun _ => rfl

theorem moves_tooDeep : Moves f (tooDeep : Parser α) tooDeep :=
  fun _ => rfl

theorem Moves.ite {c : Prop} [Decidable c] {p p' q q' : Parser α} (h : Moves f p q)
    (h' : Moves f p' q') : Moves f (if c then p else p') (if c then q else q') := by
  by_cases hc : c
  · simpa [hc] using h
  · simpa [hc] using h'

/-! ### Single tokens -/

theorem moves_checked : Moves f checked checked := by
  refine .peek_bind fun t => ?_
  obtain ⟨kind, span⟩ := t
  cases kind <;> exact fun _ => rfl

theorem moves_advance : Moves f advance advance := by
  refine .peek_bind fun t => .bind ?_ fun _ => moves_checked.bind fun _ => moves_pure t
  intro s
  show EStateM.Result.ok () (if t.isTerminal then relocate f s else (relocate f s).tail) =
    .ok () (relocate f (if t.isTerminal then s else s.tail))
  rw [Stream.tail_relocate, apply_ite (relocate f)]

theorem moves_accept (kind : Kind) : Moves f (accept kind) (accept kind) :=
  .peek_bind fun _ => .ite (moves_advance.bind fun _ => moves_pure true) (moves_pure false)

theorem moves_expect (kind : Kind) (what : String) :
    Moves f (expect kind what) (expect kind what) :=
  .peek_bind fun _ => .ite (moves_advance.bind fun _ => moves_pure ()) (moves_unexpected what)

theorem moves_name (what : String) : Moves f (name what) (name what) := by
  refine .peek_bind fun t => ?_
  obtain ⟨kind, span⟩ := t
  cases kind with
  | ident n => exact moves_advance.bind fun _ => moves_pure (n, span)
  | _ => exact moves_unexpected what

/-! ### The loop -/

theorem Moves.iterate {step step' : β → Parser (Option β)}
    (h : ∀ b, Moves f (step b) (step' (relocate f b))) (b : β) :
    Moves f (iterate step b) (iterate step' (relocate f b)) := by
  intro s
  induction hsize : s.size using Nat.strongRecOn generalizing b s with
  | _ n ih =>
    have hstep := h b s
    cases hrun : step b s with
    | error e s' =>
      rw [hrun] at hstep
      rw [iterate_of_error hrun, iterate_of_error hstep]
      rfl
    | ok found s' =>
      rw [hrun] at hstep
      cases found with
      | none =>
        rw [iterate_of_none hrun, iterate_of_none hstep]
        rfl
      | some b' =>
        by_cases hlt : s'.size < s.size
        · rw [iterate_of_some hrun hlt, iterate_of_some hstep hlt]
          exact ih _ (hsize ▸ hlt) b' s' rfl
        · rw [iterate_of_still hrun hlt, iterate_of_still hstep hlt]
          rfl

theorem Moves.acceptLoop {kind : Kind} {more more' : β → Parser (Option β)}
    (h : ∀ b, Moves f (more b) (more' (relocate f b))) (b : β) :
    Moves f (Parser.iterate (fun b => do if ← accept kind then more b else return none) b)
      (Parser.iterate (fun b => do if ← accept kind then more' b else return none)
        (relocate f b)) :=
  .iterate (fun b => (moves_accept kind).bind fun _ => .ite (h b) (moves_pure none)) b

theorem Moves.commaList {p q : Parser α} (h : Moves f p q) :
    Moves f (commaList p) (commaList q) := by
  refine h.bind fun first => ?_
  refine .acceptLoop ?_ [first]
  intro found
  refine h.bind fun a => ?_
  have hpure := moves_pure (f := f) (some (found ++ [a]))
  simpa using hpure

end

/-! ### Scopes -/

section

variable (f : Location → Location)

theorem find?_relocate (scope : Scope) (n : String) :
    (relocate f scope).find? n = relocate f (scope.find? n) := by
  show (scope.names[n]?).bind (relocate f scope).get? =
    ((scope.names[n]?).bind scope.get?).map (relocate f)
  cases scope.names[n]? with
  | none => rfl
  | some slot => cases slot <;> exact List.getElem?_map

theorem declareParam?_relocate (scope : Scope) (v : Variable) :
    (relocate f scope).declareParam? (relocate f v) = relocate f (scope.declareParam? v) := by
  have hlength : (relocate f scope.params).length = scope.params.length := List.length_map _
  unfold Scope.declareParam?
  rw [apply_ite (relocate f)]
  show (if scope.names.contains v.name then none else some (⟨relocate f scope.params ++ _, _,
    scope.names.insert v.name (.param (relocate f scope.params).length)⟩ : Scope)) = _
  rw [hlength, Relocate.relocate_some]
  show _ = if _ then _ else some (⟨relocate f (scope.params ++ [v]), _, _⟩ : Scope)
  rw [Relocate.relocate_append]
  rfl

theorem declareLocal?_relocate (scope : Scope) (v : Variable) :
    (relocate f scope).declareLocal? (relocate f v) = relocate f (scope.declareLocal? v) := by
  have hlength : (relocate f scope.locals).length = scope.locals.length := List.length_map _
  unfold Scope.declareLocal?
  rw [apply_ite (relocate f)]
  show (if scope.names.contains v.name then none else some (⟨_, relocate f scope.locals ++ _,
    scope.names.insert v.name (.localVar (relocate f scope.locals).length)⟩ : Scope)) = _
  rw [hlength, Relocate.relocate_some]
  show _ = if _ then _ else some (⟨_, relocate f (scope.locals ++ [v]), _⟩ : Scope)
  rw [Relocate.relocate_append]
  rfl

end

section

variable {f : Location → Location}

/-! ### Types and parameters -/

theorem moves_markers : Moves f markers markers :=
  .acceptLoop (fun n => moves_pure (some (n + 1))) 0

theorem moves_type : Moves f type type := by
  refine moves_markers.bind fun depth => .peek_bind fun t => ?_
  rw [Token.kind_relocate]
  cases base? t.kind with
  | some base => exact moves_advance.bind fun _ => moves_pure (⟨base, depth⟩ : Ty)
  | none => exact moves_unexpected _

theorem moves_param (scope : Scope) : Moves f (param scope) (param (relocate f scope)) := by
  refine (moves_name _).bind fun named => (moves_expect _ _).bind fun _ =>
    moves_type.bind fun type => ?_
  obtain ⟨n, span⟩ := named
  have hdeclare : (relocate f scope).declareParam?
      ⟨relocate f n, relocate f type, (relocate f span).start⟩ =
        relocate f (scope.declareParam? ⟨n, type, span.start⟩) :=
    declareParam?_relocate f scope ⟨n, type, span.start⟩
  dsimp only
  rw [hdeclare]
  cases scope.declareParam? ⟨n, type, span.start⟩ with
  | some grown => exact moves_pure grown
  | none => exact moves_fail _ span

theorem moves_params : Moves f params params := by
  refine .peek_bind fun t => .ite (moves_pure Scope.empty) ?_
  refine (moves_param Scope.empty).bind fun scope => .acceptLoop (fun scope => ?_) scope
  exact (moves_param scope).bind fun grown => moves_pure (some grown)

/-! ### Expressions -/

theorem moves_resolve (scope : Scope) (n : String) (span : Span) (usage : Nat) (loc : Location) :
    Moves f (resolve scope n span usage loc)
      (resolve (relocate f scope) n (relocate f span) usage (f loc)) := by
  unfold resolve
  rw [find?_relocate]
  cases scope.find? n with
  | some decl => exact moves_pure (⟨decl, usage, loc⟩ : Reference)
  | none => exact moves_fail _ span

theorem moves_marked (scope : Scope) : Moves f (marked scope) (marked (relocate f scope)) := by
  refine .peek_bind fun first => moves_markers.bind fun usage => .peek_bind fun t => ?_
  obtain ⟨kind, span⟩ := t
  cases kind with
  | ident n =>
    refine moves_advance.bind fun _ => .peek_bind fun next => .ite ?_ ?_
    · exact moves_fail _ ⟨first.loc, span.stop⟩
    · exact moves_resolve scope n span usage first.loc
  | _ => exact moves_fail _ span

theorem moves_chain (layer : Layer) {p q : Parser Value} (h : Moves f p q) :
    Moves f (chain layer p) (chain layer q) := by
  refine .peek_bind fun start => h.bind fun first =>
    .iterate (fun left => .peek_bind fun t => ?_) (Value.leaf first start.loc)
  rw [Token.kind_relocate]
  cases operator? layer t.kind with
  | none => exact moves_pure none
  | some op =>
    refine moves_advance.bind fun _ => h.bind fun right => ?_
    rw [← Value.relocate_extend]
    exact moves_pure (some (left.extend op right))

section

variable {p q : Parser Unary} (h : Moves f p q)

include h

theorem moves_valueOf : Moves f (valueOf p) (valueOf q) := by
  unfold valueOf
  induction Layer.all with
  | nil => exact h.bind fun operand => moves_pure (Value.unary operand)
  | cons layer layers ih => exact moves_chain layer ih

theorem moves_exprOf : Moves f (exprOf p) (exprOf q) := by
  refine (moves_valueOf h).bind fun value => ?_
  rw [← Expr.relocate_single]
  exact moves_pure (Expr.single value)

theorem moves_argsOf : Moves f (argsOf p) (argsOf q) := by
  have hclose : ∀ args : List Expr,
      Moves f (do expect (.symbol .rparen) "')' after arguments"; return args)
        (do expect (.symbol .rparen) "')' after arguments"; return relocate f args) :=
    fun args => (moves_expect _ _).bind fun _ => moves_pure args
  exact .peek_bind fun t =>
    .ite ((moves_pure []).bind hclose) ((moves_exprOf h).commaList.bind hclose)

end

/-- There is no room on either side, or what is inside moves. -/
inductive MovesInner (f : Location → Location) :
    (inner inner' : Opening Stream ParseError (Parser Unary)) → Prop where
  | shut : MovesInner f .shut .shut
  | into {p q : Parser Unary} : Moves f p q → MovesInner f (.into p) (.into q)

theorem MovesInner.enter {α : Type} [Relocate α]
    {inner inner' : Opening Stream ParseError (Parser Unary)} {k k' : Parser Unary → Parser α}
    (h : MovesInner f inner inner') (hk : ∀ p q, Moves f p q → Moves f (k p) (k' q)) :
    Moves f (inner.enter k) (inner'.enter k') := by
  cases h with
  | shut => exact moves_tooDeep
  | into h => exact hk _ _ h

section

variable {inner inner' : Opening Stream ParseError (Parser Unary)}
  (hinner : MovesInner f inner inner') (scope : Scope)

include hinner

theorem moves_factor : Moves f (factor scope inner) (factor (relocate f scope) inner') := by
  refine .peek_bind fun t => ?_
  obtain ⟨kind, span⟩ := t
  cases kind with
  | int value => exact moves_advance.bind fun _ => moves_pure (Factor.const value span.start)
  | char c => exact moves_advance.bind fun _ => moves_pure (Factor.const c.toNat span.start)
  | bool b =>
    exact moves_advance.bind fun _ => moves_pure (Factor.const (if b then 1 else 0) span.start)
  | string value => exact moves_advance.bind fun _ => moves_pure (Factor.string value span.start)
  | symbol symbol =>
    cases symbol with
    | lparen =>
      refine hinner.enter fun p q h => moves_advance.bind fun _ =>
        (moves_exprOf h).bind fun e => (moves_expect _ _).bind fun _ => ?_
      exact moves_pure (Factor.paren e span.start)
    | _ => exact moves_unexpected _
  | ident n =>
    refine moves_advance.bind fun _ => (moves_accept _).bind fun _ => .ite ?_ ?_
    · refine (hinner.enter fun p q h => moves_argsOf h).bind fun args => ?_
      rw [← Expr.moveAll_eq]
      exact moves_pure (Factor.call (.placeholder n span.start) args span.start)
    · exact (moves_resolve scope n span 0 span.start).bind fun r => moves_pure (Factor.var r)
  | keyword => exact moves_unexpected _
  | eos => exact moves_unexpected _
  | error => exact moves_unexpected _

theorem moves_unaryWith :
    Moves f (unaryWith scope inner) (unaryWith (relocate f scope) inner') := by
  refine .peek_bind fun t => ?_
  rw [Token.kind_relocate]
  cases sign? t.kind with
  | some sign =>
    exact hinner.enter fun p q h => moves_advance.bind fun _ => h.bind fun operand =>
      moves_pure (Unary.signed sign operand t.loc)
  | none =>
    refine .ite ?_ ?_
    · exact (moves_marked scope).bind fun r => moves_pure (Unary.factor (.var r))
    · exact (moves_factor hinner scope).bind fun factor => moves_pure (Unary.factor factor)

end

theorem moves_unary (scope : Scope) (room : Nat) :
    Moves f (unary scope room) (unary (relocate f scope) room) := by
  induction room with
  | zero => exact moves_unaryWith .shut scope
  | succ room ih => exact moves_unaryWith (.into ih) scope

theorem moves_expr (scope : Scope) (room : Nat) :
    Moves f (expr scope room) (expr (relocate f scope) room) :=
  moves_exprOf (moves_unary scope room)

theorem moves_args (scope : Scope) (room : Nat) :
    Moves f (args scope room) (args (relocate f scope) room) := by
  cases room with
  | zero => exact moves_tooDeep
  | succ room => exact moves_argsOf (moves_unary scope room)

/-! ### Statements -/

theorem moves_condition (keyword : Keyword) {p q : Parser Expr} (h : Moves f p q) :
    Moves f (condition keyword p) (condition keyword q) :=
  .peek_bind fun t => (moves_expect _ _).bind fun _ => h.bind fun e =>
    (moves_expect _ _).bind fun _ => moves_pure (Factor.paren e t.loc)

theorem moves_semicolon : Moves f semicolon semicolon :=
  moves_expect _ _

theorem moves_declaration {p q : Parser Expr} (h : Moves f p q) (n : String) (loc : Location) :
    Moves f (declaration p n loc) (declaration q n (f loc)) := by
  refine (moves_expect _ _).bind fun _ => moves_type.bind fun type =>
    (moves_accept _).bind fun found => ?_
  have hend : Moves f
      (do
        let t ← peek
        if t.kind = .symbol .comma then fail .multipleDeclarations t.span
        semicolon
        return (⟨n, type, loc⟩ : Variable))
      (do
        let t ← peek
        if t.kind = .symbol .comma then fail .multipleDeclarations t.span
        semicolon
        return (⟨n, type, f loc⟩ : Variable)) := by
    refine .peek_bind fun t => .ite ?_ ?_
    · exact (moves_fail _ _).bind fun _ => moves_semicolon.bind fun _ =>
        moves_pure (⟨n, type, loc⟩ : Variable)
    · exact moves_semicolon.bind fun _ => moves_pure (⟨n, type, loc⟩ : Variable)
  exact .ite (h.bind fun _ => hend) hend

theorem moves_assignment {p q : Parser Unary} (h : Moves f p q) (target : Reference)
    (loc : Location) :
    Moves f (assignment (valueOf p) target loc)
      (assignment (valueOf q) (relocate f target) (f loc)) :=
  (moves_expect _ _).bind fun _ => (moves_valueOf h).bind fun value =>
    moves_semicolon.bind fun _ => moves_pure (Statement.assign ⟨some target, value, loc⟩ loc)

theorem moves_named (scope : Scope) (room : Nat) :
    Moves f (named scope (unary scope room) (args scope room))
      (named (relocate f scope) (unary (relocate f scope) room)
        (args (relocate f scope) room)) := by
  refine (moves_name _).bind fun (n, span) => .peek_bind fun t => ?_
  dsimp only [Relocate.relocate_mk]
  obtain ⟨kind, tokenSpan⟩ := t
  cases kind with
  | symbol symbol =>
    cases symbol with
    | colon =>
      refine (moves_declaration (moves_expr scope room) n span.start).bind fun v => ?_
      rw [declareLocal?_relocate]
      cases scope.declareLocal? v with
      | some grown => exact moves_pure (grown, [Statement.declare v span.start])
      | none => exact moves_fail _ span
    | lparen =>
      refine moves_advance.bind fun _ => (moves_args scope room).bind fun args =>
        moves_semicolon.bind fun _ => ?_
      rw [← Expr.moveAll_eq]
      exact moves_pure (scope, [Statement.call (.placeholder n span.start) args span.start])
    | eq =>
      refine (moves_resolve scope n span 0 span.start).bind fun target =>
        (moves_assignment (moves_unary scope room) target span.start).bind fun statement => ?_
      exact moves_pure (scope, [statement])
    | _ => exact moves_unexpected _
  | _ => exact moves_unexpected _

theorem moves_ret {p q : Parser Expr} (h : Moves f p q) (loc : Location) :
    Moves f (ret p loc) (ret q (f loc)) := by
  have hend : ∀ value : Option Expr,
      Moves f (do semicolon; return Statement.ret value loc)
        (do semicolon; return Statement.ret (relocate f value) (f loc)) :=
    fun value => moves_semicolon.bind fun _ => by
      rw [← Expr.moveOption_eq]
      exact moves_pure (Statement.ret value loc)
  refine .peek_bind fun t => .ite ((moves_pure none).bind hend) (.bind ?_ hend)
  exact h.bind fun e => moves_pure (some e)

theorem moves_flat (scope : Scope) (room : Nat) :
    Moves f (flatAt room scope) (flatAt room (relocate f scope)) := by
  refine .peek_bind fun t => ?_
  obtain ⟨kind, span⟩ := t
  cases kind with
  | keyword word =>
    cases word with
    | breakKw =>
      exact moves_advance.bind fun _ => moves_semicolon.bind fun _ =>
        moves_pure (scope, [Statement.brk span.start])
    | continueKw =>
      exact moves_advance.bind fun _ => moves_semicolon.bind fun _ =>
        moves_pure (scope, [Statement.cont span.start])
    | returnKw =>
      exact moves_advance.bind fun _ =>
        (moves_ret (moves_expr scope room) span.start).bind fun statement =>
        moves_pure (scope, [statement])
    | _ => exact moves_unexpected _
  | symbol symbol =>
    cases symbol with
    | semicolon => exact moves_advance.bind fun _ => moves_pure (scope, ([] : List Statement))
    | caret =>
      exact (moves_marked scope).bind fun target =>
        (moves_assignment (moves_unary scope room) target span.start).bind fun statement =>
        moves_pure (scope, [statement])
    | _ => exact moves_unexpected _
  | ident n => exact moves_named scope room
  | _ => exact moves_unexpected _

section

variable {p : Scope → Parser Body} (h : ∀ scope, Moves f (p scope) (p (relocate f scope)))

include h

theorem moves_statements (scope : Scope) :
    Moves f (statements p scope) (statements p (relocate f scope)) := by
  refine .iterate (fun (scope, found) => .peek_bind fun t => .ite (moves_pure none) ?_) (scope, [])
  refine (h scope).bind fun (grown, new) => ?_
  have hpure := moves_pure (f := f) (some (grown, found ++ new))
  simpa using hpure

theorem moves_block (scope : Scope) : Moves f (block p scope) (block p (relocate f scope)) :=
  (moves_statements h scope).bind fun body => (moves_expect _ _).bind fun _ => moves_pure body

theorem moves_body (scope : Scope) : Moves f (body p scope) (body p (relocate f scope)) :=
  (moves_accept _).bind fun _ => .ite (moves_block h scope) (h scope)

end

/-- What is parsed on the level moves with the scope. -/
structure MovesLevel (f : Location → Location) (level : Level Stream ParseError) : Prop where
  expr : ∀ scope, Moves f (level.expr scope) (level.expr (relocate f scope))
  statement : ∀ scope, Moves f (level.statement scope) (level.statement (relocate f scope))

section

variable {level : Level Stream ParseError} (h : MovesLevel f level)

include h

theorem moves_branch (scope : Scope) (loc : Location) :
    Moves f (branch level scope loc) (branch level (relocate f scope) (f loc)) := by
  have hstatement : ∀ (condition : Factor) (scope : Scope) (yes no : List Statement),
      Moves f (pure (scope, [Statement.branch condition yes no loc]) : Parser Body)
        (pure (relocate f scope, [Statement.branch (relocate f condition) (relocate f yes)
          (relocate f no) (f loc)])) := by
    intro condition scope yes no
    have hpure := moves_pure (f := f) (scope, [Statement.branch condition yes no loc])
    rw [← Statement.moveAll_eq, ← Statement.moveAll_eq]
    exact hpure
  refine (moves_condition _ (h.expr scope)).bind fun condition =>
    (moves_body h.statement scope).bind fun (scope₁, yes) =>
    (moves_accept _).bind fun _ => .ite ?_ ?_
  · exact (moves_body h.statement scope₁).bind fun (scope₂, no) =>
      hstatement condition scope₂ yes no
  · exact hstatement condition scope₁ yes []

theorem moves_loop (scope : Scope) (loc : Location) :
    Moves f (loop level scope loc) (loop level (relocate f scope) (f loc)) := by
  refine (moves_condition _ (h.expr scope)).bind fun condition =>
    (moves_body h.statement scope).bind fun (scope₁, inner) => ?_
  have hpure := moves_pure (f := f) (scope₁, [Statement.loop condition inner loc])
  dsimp only [Relocate.relocate_mk]
  rw [← Statement.moveAll_eq]
  exact hpure

end

theorem moves_enter {α : Type} [Relocate α] {ι : Type} {P : ι → Prop}
    {inner : Opening Stream ParseError ι} {k k' : ι → Parser α} (h : inner.Leads P)
    (hk : ∀ a, P a → Moves f (k a) (k' a)) : Moves f (inner.enter k) (inner.enter k') := by
  cases h with
  | shut => exact moves_tooDeep
  | into h => exact hk _ h

theorem moves_statementWith {flat : Scope → Parser Body}
    {inner : Opening Stream ParseError (Level Stream ParseError)}
    (hflat : ∀ scope, Moves f (flat scope) (flat (relocate f scope)))
    (hinner : inner.Leads (MovesLevel f)) (scope : Scope) :
    Moves f (statementWith flat inner scope) (statementWith flat inner (relocate f scope)) := by
  refine .peek_bind fun t => ?_
  rw [Token.kind_relocate]
  split
  · exact moves_enter hinner fun _ h =>
      moves_advance.bind fun _ => moves_block h.statement scope
  · exact moves_enter hinner fun _ h => moves_advance.bind fun _ => moves_branch h scope t.loc
  · exact moves_enter hinner fun _ h => moves_advance.bind fun _ => moves_loop h scope t.loc
  · exact hflat scope

theorem moves_statement (room : Nat) (scope : Scope) :
    Moves f (statement room scope) (statement room (relocate f scope)) := by
  induction room generalizing scope with
  | zero => exact moves_statementWith (moves_flat · 0) .shut scope
  | succ room ih =>
    exact moves_statementWith (moves_flat · (room + 1)) (.into ⟨(moves_expr · room), ih⟩) scope

/-! ### Items -/

theorem moves_function : Moves f function function := by
  refine .peek_bind fun t => (moves_expect _ _).bind fun _ => (moves_name _).bind fun (n, _) =>
    (moves_expect _ _).bind fun _ => moves_params.bind fun scope =>
    (moves_expect _ _).bind fun _ => (moves_expect _ _).bind fun _ =>
    moves_type.bind fun returns => (moves_expect _ _).bind fun _ =>
    (moves_statements (moves_statement maxNesting) scope).bind fun (scope, body) =>
    (moves_expect _ _).bind fun _ => ?_
  dsimp only [Relocate.relocate_mk]
  rw [← Statement.moveAll_eq]
  exact moves_pure (⟨n, returns, scope.params, scope.locals, body, t.loc⟩ : Function)

theorem moves_global : Moves f global global :=
  (moves_name _).bind fun (n, span) =>
    moves_declaration (moves_expr Scope.empty maxNesting) n span.start

theorem moves_item : Moves f item item := by
  refine .peek_bind fun t => ?_
  rw [Token.kind_relocate]
  split
  · exact moves_function.bind fun fn => moves_pure (Item.function fn)
  · exact moves_global.bind fun v => moves_pure (Item.global v)
  · exact moves_unexpected _

end

end Parser

/-! ### Whole streams -/

theorem Reading.ofStream_relocate (f : Location → Location) (s : Stream) :
    Reading.ofStream (relocate f s) = relocate f (Reading.ofStream s) := by
  induction hsize : s.size using Nat.strongRecOn generalizing s with
  | _ n ih =>
    rw [Reading.ofStream, Reading.ofStream, Parser.moves_item s, Stream.current_relocate,
      Token.kind_relocate]
    by_cases hend : s.current.kind = .eos
    · rw [if_pos hend, if_pos hend]
      rfl
    · rw [if_neg hend, if_neg hend]
      cases Parser.item s with
      | error e s' => rfl
      | ok item s' =>
        by_cases hlt : s'.size < s.size
        · simp only [Parser.movedResult, Stream.size_relocate, if_pos hlt,
            ih _ (hsize ▸ hlt) s' rfl]
          rfl
        · simp only [Parser.movedResult, Stream.size_relocate, if_neg hlt]
          rfl

theorem Program.relocate_ofItems (f : Location → Location) (items : List Item) :
    relocate f (Program.ofItems items) = Program.ofItems (relocate f items) := by
  induction items with
  | nil => rfl
  | cons item items ih =>
    cases item with
    | global v =>
      show relocate f (Program.cons (.global v) (Program.ofItems items)) =
        Program.cons (.global (relocate f v)) (Program.ofItems (relocate f items))
      rw [← ih]
      rfl
    | function fn =>
      show relocate f (Program.cons (.function fn) (Program.ofItems items)) =
        Program.cons (.function (relocate f fn)) (Program.ofItems (relocate f items))
      rw [← ih]
      rfl

end Shc
