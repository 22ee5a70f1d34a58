import Shc.Proofs.Complete.Expr
import Shc.Proofs.Sound.Statement

/-!
# Derived statements are accepted

The walk through the statements carries the scope along.  `Ready` says what is
asked of the scope in front of a walk: whatever occurs on the walk is declared by
then, no name is declared twice, and the environment gives each name its variable.
It splits along a walk, the second part being ready in the scope that the first
part leaves.

Behind a statement that ends in an `if` without `else` there must not be an
`else`, since the parser would take it.
-/

namespace Shc

open Token (Kind)
open Grammar (symbolAt wordAt nameAt)

/-- The scope in front of a walk, of which the environment knows all the variables. -/
structure Scope.Ready (scope : Scope) (env : String → Variable)
    (mentions : List (Mention String)) : Prop where
  indexed : scope.Indexed
  bound : Mention.Bound Grammar.Named scope.vars mentions
  distinct : ((scope.vars ++ Mention.declared mentions).map Variable.name).Nodup
  env_eq : ∀ v ∈ scope.vars ++ Mention.declared mentions, env v.name = v

namespace Scope.Ready

variable {scope scope' : Scope} {env : String → Variable} {first second : List (Mention String)}

theorem left (h : scope.Ready env (first ++ second)) : scope.Ready env first where
  indexed := h.indexed
  bound := (Mention.bound_append.1 h.bound).1
  distinct := by
    have hall := h.distinct
    rw [Mention.declared_append, ← List.append_assoc, List.map_append] at hall
    exact (List.nodup_append.1 hall).1
  env_eq := by
    intro v hv
    refine h.env_eq v ?_
    rw [Mention.declared_append, ← List.append_assoc]
    exact List.mem_append_left _ hv

theorem right (h : scope.Ready env (first ++ second)) (hgrows : scope.Grows first scope') :
    scope'.Ready env second := by
  have hvars : scope.vars ++ Mention.declared (first ++ second) =
      scope'.vars ++ Mention.declared second := by
    rw [hgrows.vars_eq, Mention.declared_append, List.append_assoc]
  refine ⟨hgrows.indexed, ?_, hvars ▸ h.distinct, hvars ▸ h.env_eq⟩
  rw [hgrows.vars_eq]
  exact (Mention.bound_append.1 h.bound).2

/-- A name that occurs at the start of a walk denotes its variable. -/
theorem find?_eq {name : String} {rest : List (Mention String)}
    (h : scope.Ready env (.use name :: rest)) : scope.find? name = some (env name) := by
  obtain ⟨v, hv, rfl⟩ := List.mem_map.1 (Mention.bound_use_cons.1 h.bound).1
  rw [h.env_eq v (List.mem_append_left _ hv)]
  exact h.indexed.find?_eq_some_iff.2 ⟨hv, rfl⟩

theorem tail {name : String} {rest : List (Mention String)}
    (h : scope.Ready env (.use name :: rest)) : scope.Ready env rest :=
  ⟨h.indexed, (Mention.bound_use_cons.1 h.bound).2, h.distinct, h.env_eq⟩

theorem resolves {uses : List String} (h : scope.Ready env (uses.map .use)) :
    ∀ name ∈ uses, scope.find? name = some (env name) := by
  induction uses with
  | nil => simp
  | cons name uses ih =>
    intro other hother
    rcases List.mem_cons.1 hother with rfl | hmem
    · exact h.find?_eq
    · exact ih h.tail other hmem

theorem grows {uses : List String} (h : scope.Ready env (uses.map .use)) :
    scope.Grows (uses.map .use) scope :=
  ⟨h.indexed, rfl, by simp, h.bound⟩

theorem grows_nil (h : scope.Ready env []) : scope.Grows [] scope :=
  ⟨h.indexed, rfl, (List.append_nil _).symm, h.bound⟩

theorem fits {uses : List String} {room depth : Nat} (h : scope.Ready env (uses.map .use))
    (hdepth : depth ≤ room) : Parser.Fits scope env room uses depth :=
  ⟨h.resolves, hdepth⟩

/-- The variable at the start of a walk can be declared. -/
theorem declare {v : Variable} (h : scope.Ready env [.declare v]) :
    ∃ scope', scope.declareLocal? v = some scope' ∧ scope.Grows [.declare v] scope' := by
  have hfree : v.name ∉ scope.vars.map Variable.name := by
    have hall := h.distinct
    rw [List.map_append, List.nodup_append] at hall
    intro hmem
    exact hall.2.2 v.name hmem v.name (by simp [Mention.declared]) rfl
  obtain ⟨scope', hdeclare, hindexed, hparams, hlocals⟩ :=
    h.indexed.declareLocal?_of_notMem hfree
  exact ⟨scope', hdeclare, hindexed, hparams, hlocals, h.bound⟩

end Scope.Ready

/-! ### Tokens of statements -/

namespace Grammar

theorem Condition.proper (c : Condition) : Token.Proper c.tokens := by
  simp [Condition.tokens, Token.isTerminal, Kind.isTerminal, c.inner.proper]

theorem Declaration.proper_initTokens (init : Option (Span × Expr)) :
    Token.Proper (initTokens init) := by
  cases init with
  | none => exact Token.proper_nil
  | some init => simp [initTokens, Token.isTerminal, Kind.isTerminal, init.2.proper]

theorem Declaration.proper_tailTokens (d : Declaration) : Token.Proper d.tailTokens := by
  simp [tailTokens, Token.isTerminal, Kind.isTerminal, d.type.proper, proper_initTokens]

mutual

theorem Statement.proper : (t : Statement) → Token.Proper t.tokens
  | .block _ inner _ => by
    simp [Statement.tokens, Token.isTerminal, Kind.isTerminal, inner.proper]
  | .branch _ condition yes => by
    simp [Statement.tokens, Token.isTerminal, Kind.isTerminal, condition.proper, yes.proper]
  | .branchElse _ condition yes _ no => by
    simp [Statement.tokens, Token.isTerminal, Kind.isTerminal, condition.proper, yes.proper,
      no.proper]
  | .loop _ condition body => by
    simp [Statement.tokens, Token.isTerminal, Kind.isTerminal, condition.proper, body.proper]
  | .brk _ _ | .cont _ _ | .empty _ => by
    simp [Statement.tokens, Token.isTerminal, Kind.isTerminal]
  | .ret _ value _ => by
    cases value with
    | none => simp [Statement.tokens, Token.isTerminal, Kind.isTerminal]
    | some e => simp [Statement.tokens, Token.isTerminal, Kind.isTerminal, e.proper]
  | .declare d => by
    simp [Statement.tokens, Declaration.tokens, Token.isTerminal, Kind.isTerminal,
      d.proper_tailTokens]
  | .call _ _ _ args _ _ => by
    simp [Statement.tokens, Token.isTerminal, Kind.isTerminal, args.proper]
  | .assign markers _ _ _ value _ => by
    have hmarkers : Token.Proper (markers.map (symbolAt .caret)) :=
      Token.proper_map (fun _ => rfl) markers
    simp [Statement.tokens, Token.isTerminal, Kind.isTerminal, value.proper, hmarkers]

theorem Body.proper : (t : Body) → Token.Proper t.tokens
  | .block _ inner _ => by
    simp [Body.tokens, Token.isTerminal, Kind.isTerminal, inner.proper]
  | .single statement => statement.proper

theorem Statements.proper : (t : Statements) → Token.Proper t.tokens
  | .nil => Token.proper_nil
  | .cons first rest => Token.proper_append.2 ⟨first.proper, rest.proper⟩

end

end Grammar

namespace Parser

/-- Whether a token of this kind starts a statement that opens no construct. -/
def startsFlat : Kind → Bool
  | .keyword .breakKw | .keyword .continueKw | .keyword .returnKw => true
  | .symbol .semicolon | .symbol .caret | .ident _ => true
  | _ => false

/-- Whether a statement can start with a token of this kind. -/
def startsStatement : Kind → Bool
  | .symbol .lbrace | .keyword .ifKw | .keyword .whileKw => true
  | kind => startsFlat kind

theorem statement_starts (t : Grammar.Statement) :
    ∃ kind span rest, t.tokens = ⟨kind, span⟩ :: rest ∧ startsStatement kind = true := by
  cases t with
  | assign markers name span eq value semicolon =>
    cases markers with
    | nil => exact ⟨_, _, _, rfl, rfl⟩
    | cons first more => exact ⟨_, _, _, rfl, rfl⟩
  | block | branch | branchElse | loop | brk | cont | ret | declare | call | empty =>
    exact ⟨_, _, _, rfl, rfl⟩

/-- Only a block starts with a brace. -/
theorem block_or_ne_lbrace (t : Grammar.Statement) :
    (∃ opening inner closing, t = .block opening inner closing) ∨
      ∀ r : Stream, (r.prepend t.tokens).current.kind ≠ .symbol .lbrace := by
  cases t with
  | block opening inner closing => exact .inl ⟨opening, inner, closing, rfl⟩
  | assign markers name span eq value semi =>
    right
    intro r
    cases markers <;> simp [Grammar.Statement.tokens]
  | branch | branchElse | loop | brk | cont | ret | declare | call | empty =>
    right
    intro r
    simp [Grammar.Statement.tokens, Grammar.Declaration.tokens]

/-- What follows a statement in a block: another one, or the closing brace. -/
theorem current_statements (t : Grammar.Statements) {r : Stream}
    (hr : r.current.kind = .symbol .rbrace) :
    (r.prepend t.tokens).current.kind ≠ .keyword .elseKw := by
  cases t with
  | nil => simp [Grammar.Statements.tokens, hr]
  | cons first rest =>
    obtain ⟨kind, span, more, htokens, hstarts⟩ := statement_starts first
    rw [Grammar.Statements.tokens, htokens]
    rintro hkind
    rw [show kind = .keyword .elseKw from hkind] at hstarts
    exact absurd hstarts (by decide)

/-- What is parsed inside a construct, for which there has to be room. -/
def levels : (room : Nat) → Opening Stream ParseError (Level Stream ParseError)
  | 0 => .shut
  | room + 1 => .into ⟨(expr · room), statement room⟩

theorem statement_eq_statementWith (room : Nat) :
    statement room = statementWith (flatAt room) (levels room) := by
  cases room <;> rfl

theorem statement_eq_flat {room : Nat} {scope : Scope} {s : Stream}
    (h : startsFlat s.current.kind = true) : statement room scope s = flatAt room scope s := by
  rw [statement_eq_statementWith, statementWith, peek_bind]
  generalize s.current.kind = kind at h
  split <;> first | rfl | simp [startsFlat] at h

/-! ### Parts of statements -/

section

variable {scope : Scope} {env : String → Variable} {room : Nat}

theorem value_prepend (t : Grammar.Expr) {r : Stream} (hfits : Fits scope env room t.uses t.depth)
    (hr : r.Clean) (hends : EndsLayers Grammar.allLayers r.current.kind) :
    valueOf (unary scope room) (r.prepend t.tokens) = .ok (t.image env) r :=
  chain_prepend t (by decide) hfits hr hends

theorem expr_prepend (t : Grammar.Expr) {r : Stream} (hfits : Fits scope env room t.uses t.depth)
    (hr : r.Clean) (hends : EndsLayers Grammar.allLayers r.current.kind) :
    exprOf (unary scope room) (r.prepend t.tokens) = .ok (t.expr env) r :=
  exprOf_of_ok (chain_prepend t (by decide) hfits hr hends)

theorem condition_prepend (keyword : Keyword) (c : Grammar.Condition) {r : Stream}
    (hfits : Fits scope env room c.inner.uses c.inner.depth) (hr : r.Clean) :
    condition keyword (exprOf (unary scope room)) (r.prepend c.tokens) = .ok (c.image env) r := by
  have hclose : (r.cons (symbolAt .rparen c.closing)).Clean := Stream.clean_cons rfl r
  have hexpr := expr_prepend c.inner hfits hclose (endsLayers_symbol rfl (by simp) _)
  simp only [Grammar.Condition.tokens, Stream.prepend_cons, Stream.prepend_append,
    Stream.prepend_nil, condition, peek_bind, Stream.current_cons]
  rw [bind_of_ok (expect_cons rfl (hclose.prepend c.inner.proper)), bind_of_ok hexpr,
    bind_of_ok (expect_cons rfl hr)]
  rfl

theorem declaration_prepend (d : Grammar.Declaration) {r : Stream}
    (hfits : Fits scope env room d.uses d.depth) (hr : r.Clean) :
    declaration (exprOf (unary scope room)) d.name d.span.start (r.prepend d.tailTokens) =
      .ok d.image r := by
  obtain ⟨name, span, colon, type, init, semi⟩ := d
  have hsemi : (r.cons (symbolAt .semicolon semi)).Clean := Stream.clean_cons rfl r
  have hinit := hsemi.prepend (Grammar.Declaration.proper_initTokens init)
  simp only [Grammar.Declaration.tailTokens, Stream.prepend_cons, Stream.prepend_append,
    Stream.prepend_nil, declaration]
  rw [bind_of_ok (expect_cons rfl (hinit.prepend type.proper)),
    bind_of_ok (type_prepend type hinit)]
  cases init with
  | none =>
    rw [Grammar.Declaration.initTokens, Stream.prepend_nil, bind_of_ok (accept_of_ne (by simp)),
      if_neg (by decide), peek_bind, if_neg (by simp)]
    exact bind_of_ok (expect_cons rfl hr) _
  | some init =>
    obtain ⟨eq, e⟩ := init
    have hexpr := expr_prepend e hfits hsemi (endsLayers_symbol rfl (by simp) _)
    rw [Grammar.Declaration.initTokens, Stream.prepend_cons,
      bind_of_ok (accept_cons rfl (hsemi.prepend e.proper)), if_pos rfl, bind_of_ok hexpr,
      peek_bind, if_neg (by simp)]
    exact bind_of_ok (expect_cons rfl hr) _

theorem assignment_prepend (target : Reference) (loc : Location) (t : Grammar.Expr)
    (eq semi : Span) {r : Stream} (hfits : Fits scope env room t.uses t.depth) (hr : r.Clean) :
    assignment (valueOf (unary scope room)) target loc
      (((r.cons (symbolAt .semicolon semi)).prepend t.tokens).cons (symbolAt .eq eq)) =
      .ok (.assign ⟨some target, t.image env, loc⟩ loc) r := by
  have hsemi : (r.cons (symbolAt .semicolon semi)).Clean := Stream.clean_cons rfl r
  have hvalue := value_prepend t hfits hsemi (endsLayers_symbol rfl (by simp) _)
  rw [assignment, bind_of_ok (expect_cons rfl (hsemi.prepend t.proper)), bind_of_ok hvalue]
  exact bind_of_ok (expect_cons rfl hr) _

theorem ret_prepend (value : Option Grammar.Expr) (loc : Location) (semi : Span) {r : Stream}
    (hfits : Fits scope env room (value.elim [] Grammar.Chain.uses)
      (value.elim 0 Grammar.Chain.depth)) (hr : r.Clean) :
    ret (exprOf (unary scope room)) loc ((r.cons (symbolAt .semicolon semi)).prepend
      (value.elim [] Grammar.Chain.tokens)) =
      .ok (.ret (value.map (Grammar.Chain.expr env)) loc) r := by
  have hsemi : (r.cons (symbolAt .semicolon semi)).Clean := Stream.clean_cons rfl r
  cases value with
  | none =>
    rw [Option.elim, Stream.prepend_nil, ret, peek_bind, Stream.current_cons, if_pos rfl]
    exact bind_of_ok (expect_cons rfl hr) _
  | some e =>
    have hexpr := expr_prepend e hfits hsemi (endsLayers_symbol rfl (by simp) _)
    have hstart := current_chain e (r.cons (symbolAt .semicolon semi))
    rw [Option.elim, ret, peek_bind, if_neg (ne_symbol_of_starts hstart (by rfl)),
      bind_of_ok (map_of_ok hexpr _)]
    exact bind_of_ok (expect_cons rfl hr) _

end

/-! ### Statements -/

/-- Statements behind some that were found already. -/
def statementsFrom (statement : Scope → Parser Body) : Body → Parser Body :=
  iterate (fun (scope, found) => do
    let kind := (← peek).kind
    if kind = .symbol .rbrace ∨ kind = .eos then return none
    let (scope, new) ← statement scope
    return some (scope, found ++ new))

theorem statements_eq (statement : Scope → Parser Body) (scope : Scope) :
    statements statement scope = statementsFrom statement (scope, []) :=
  rfl

/-- In front of the tokens the parser succeeds with the image, and the scope grows by
    what is declared. -/
def Runs (p : Parser Body) (scope : Scope) (env : String → Variable)
    (mentions : List (Mention String)) (tokens : List Token)
    (image : (String → Variable) → List Statement) (r : Stream) : Prop :=
  ∃ scope', p (r.prepend tokens) = .ok (scope', image env) r ∧ scope.Grows mentions scope'

section

variable {scope : Scope} {env : String → Variable} {room : Nat} {r : Stream}

theorem declare_runs (d : Grammar.Declaration)
    (hready : scope.Ready env (d.uses.map .use ++ [.declare d.image])) (hdepth : d.depth ≤ room)
    (hr : r.Clean) :
    Runs (statement room scope) scope env (d.uses.map .use ++ [.declare d.image]) d.tokens
      ((Grammar.Statement.declare d).image ·) r := by
  have huses := hready.left
  have hdecl := declaration_prepend d (huses.fits hdepth) hr
  obtain ⟨scope', hdeclare, hgrows⟩ := (hready.right huses.grows).declare
  refine ⟨scope', ?_, huses.grows.trans hgrows⟩
  have htail : (r.prepend d.tailTokens).current.kind = .symbol .colon := rfl
  rw [statement_eq_flat (by rfl)]
  simp only [Grammar.Declaration.tokens, Stream.prepend_cons, flatAt, flat, peek_bind,
    Stream.current_cons]
  rw [named, bind_of_ok (name_cons (hr.prepend d.proper_tailTokens))]
  simp only [peek_bind, htail]
  rw [bind_of_ok hdecl]
  simp only [hdeclare]
  rfl

theorem ret_runs (word : Span) (value : Option Grammar.Expr) (semi : Span)
    (hready : scope.Ready env ((value.elim [] Grammar.Chain.uses).map .use))
    (hdepth : value.elim 0 Grammar.Chain.depth ≤ room) (hr : r.Clean) :
    Runs (statement room scope) scope env ((value.elim [] Grammar.Chain.uses).map .use)
      (Grammar.Statement.ret word value semi).tokens
      ((Grammar.Statement.ret word value semi).image ·) r := by
  have hret := ret_prepend value word.start semi (hready.fits hdepth) hr
  have hvalue : Token.Proper (value.elim [] Grammar.Chain.tokens) := by
    cases value with
    | none => exact Token.proper_nil
    | some e => exact e.proper
  have hsemi : (r.cons (symbolAt .semicolon semi)).Clean := Stream.clean_cons rfl r
  refine ⟨scope, ?_, hready.grows⟩
  rw [statement_eq_flat (by rfl)]
  simp only [Grammar.Statement.tokens, Stream.prepend_cons, Stream.prepend_append,
    Stream.prepend_nil, flatAt, flat, peek_bind, Stream.current_cons]
  rw [bind_of_ok (advance_cons rfl (hsemi.prepend hvalue))]
  exact bind_of_ok hret _

theorem jump_prepend (keyword : Keyword) (word semi : Span) (statements : List Statement)
    (hr : r.Clean) :
    (advance >>= fun _ => semicolon >>= fun _ => pure (scope, statements))
      ((r.cons (symbolAt .semicolon semi)).cons (wordAt keyword word)) =
      .ok (scope, statements) r := by
  rw [bind_of_ok (advance_cons rfl (Stream.clean_cons rfl r))]
  exact bind_of_ok (expect_cons rfl hr) _

theorem call_runs (callee : String) (span opening : Span) (args : Grammar.Args)
    (closing semi : Span) (hready : scope.Ready env (args.uses.map .use))
    (hdepth : args.depth + 1 ≤ room) (hr : r.Clean) :
    Runs (statement room scope) scope env (args.uses.map .use)
      (Grammar.Statement.call callee span opening args closing semi).tokens
      ((Grammar.Statement.call callee span opening args closing semi).image ·) r := by
  obtain ⟨less, rfl, hfits⟩ := (hready.fits hdepth).inner
  have hsemi : (r.cons (symbolAt .semicolon semi)).Clean := Stream.clean_cons rfl r
  have hargs : Parser.args scope (less + 1) _ = _ := args_prepend args closing hfits hsemi
  have hclose := Stream.clean_cons (t := symbolAt .rparen closing) rfl
    (r.cons (symbolAt .semicolon semi))
  refine ⟨scope, ?_, hready.grows⟩
  rw [statement_eq_flat (by rfl)]
  simp only [Grammar.Statement.tokens, Stream.prepend_cons, Stream.prepend_append,
    Stream.prepend_nil, flatAt, flat, peek_bind, Stream.current_cons]
  rw [named, bind_of_ok (name_cons (Stream.clean_cons rfl _))]
  simp only [peek_bind, Stream.current_cons]
  rw [bind_of_ok (advance_cons rfl (hclose.prepend args.proper)), bind_of_ok hargs]
  exact bind_of_ok (expect_cons rfl hr) _

theorem assign_runs (markers : List Span) (name : String) (span eq : Span) (e : Grammar.Expr)
    (semi : Span) (hready : scope.Ready env (.use name :: e.uses.map .use))
    (hdepth : e.depth ≤ room) (hr : r.Clean) :
    Runs (statement room scope) scope env (.use name :: e.uses.map .use)
      (Grammar.Statement.assign markers name span eq e semi).tokens
      ((Grammar.Statement.assign markers name span eq e semi).image ·) r := by
  have hfind := hready.find?_eq
  have hfits : Fits scope env room e.uses e.depth := hready.tail.fits hdepth
  have hassign := fun target loc => assignment_prepend target loc e eq semi hfits hr
  have hgrows : scope.Grows ((name :: e.uses).map .use) scope := Scope.Ready.grows hready
  have heq := Stream.clean_cons (t := symbolAt .eq eq) rfl
    ((r.cons (symbolAt .semicolon semi)).prepend e.tokens)
  refine ⟨scope, ?_, hgrows⟩
  cases markers with
  | nil =>
    rw [statement_eq_flat (by rfl)]
    simp only [Grammar.Statement.tokens, List.map_nil, List.nil_append, Stream.prepend_cons,
      Stream.prepend_append, Stream.prepend_nil, flatAt, flat, peek_bind, Stream.current_cons]
    rw [named, bind_of_ok (name_cons heq)]
    simp only [peek_bind, Stream.current_cons]
    rw [bind_of_ok (resolve_of_find? hfind _ _ _ _), bind_of_ok (hassign _ _)]
    rfl
  | cons first more =>
    have hmarked := marked_prepend hfind (first :: more) span heq (by simp)
    rw [Stream.prepend_append] at hmarked
    rw [statement_eq_flat (by rfl), flatAt, flat, peek_bind]
    simp only [Grammar.Statement.tokens, Stream.prepend_append, Stream.prepend_cons,
      Stream.prepend_nil, List.map_cons, Stream.current_cons] at hmarked ⊢
    rw [bind_of_ok hmarked, bind_of_ok (hassign _ _)]
    rfl

/-- A block behind its opening brace, if its statements run. -/
theorem block_runs (inner : Grammar.Statements) (closing : Span)
    (hinner : Runs (statements (statement room) scope) scope env inner.mentions inner.tokens
      (inner.image ·) (r.cons (symbolAt .rbrace closing))) (hr : r.Clean) :
    Runs (block (statement room) scope) scope env inner.mentions
      (inner.tokens ++ [symbolAt .rbrace closing]) (inner.image ·) r := by
  obtain ⟨scope', hrun, hgrows⟩ := hinner
  refine ⟨scope', ?_, hgrows⟩
  rw [Stream.prepend_append, block]
  simp only [Stream.prepend_cons, Stream.prepend_nil]
  rw [bind_of_ok hrun]
  exact bind_of_ok (expect_cons rfl hr) _

/-- A body in braces, also where they are those of a block statement. -/
theorem body_block_runs (opening : Span) (inner : Grammar.Statements) (closing : Span)
    (hinner : Runs (statements (statement room) scope) scope env inner.mentions inner.tokens
      (inner.image ·) (r.cons (symbolAt .rbrace closing))) (hr : r.Clean) :
    Runs (body (statement room) scope) scope env inner.mentions
      (symbolAt .lbrace opening :: (inner.tokens ++ [symbolAt .rbrace closing]))
      (inner.image ·) r := by
  obtain ⟨scope', hrun, hgrows⟩ := block_runs inner closing hinner hr
  have hclean : (r.prepend (inner.tokens ++ [symbolAt .rbrace closing])).Clean :=
    hr.prepend (Token.proper_append.2 ⟨inner.proper, by simp [Token.isTerminal, Kind.isTerminal]⟩)
  refine ⟨scope', ?_, hgrows⟩
  rw [Stream.prepend_cons, body, bind_of_ok (accept_cons rfl hclean), if_pos rfl, hrun]

theorem branch_runs (word : Span) (condition : Grammar.Condition) (yes : Grammar.Body)
    (hready : scope.Ready env (condition.inner.uses.map .use ++ yes.mentions))
    (hdepth : condition.inner.depth ≤ room)
    (hyes : Runs (body (statement room) scope) scope env yes.mentions yes.tokens (yes.image ·) r)
    (hr : r.Clean) (hnext : r.current.kind ≠ .keyword .elseKw) :
    Runs (statement (room + 1) scope) scope env
      (Grammar.Statement.branch word condition yes).mentions
      (Grammar.Statement.branch word condition yes).tokens
      ((Grammar.Statement.branch word condition yes).image ·) r := by
  obtain ⟨scope', hrun, hgrows⟩ := hyes
  have hfits : Fits scope env room condition.inner.uses condition.inner.depth :=
    hready.left.fits hdepth
  have hbody := hr.prepend yes.proper
  have hcondition := condition_prepend .ifKw condition hfits hbody
  refine ⟨scope', ?_, hready.left.grows.trans hgrows⟩
  simp only [Grammar.Statement.tokens, Stream.prepend_cons, Stream.prepend_append, statement,
    statementWith, Opening.into, expr, peek_bind, Stream.current_cons]
  rw [bind_of_ok (advance_cons rfl (hbody.prepend condition.proper)), branch,
    bind_of_ok hcondition, bind_of_ok hrun]
  dsimp only
  rw [bind_of_ok (accept_of_ne hnext), if_neg (by decide)]
  rfl

theorem branchElse_runs (word : Span) (condition : Grammar.Condition) (yes : Grammar.Body)
    (elseWord : Span) (no : Grammar.Body)
    (hready : scope.Ready env (condition.inner.uses.map .use ++ (yes.mentions ++ no.mentions)))
    (hdepth : condition.inner.depth ≤ room)
    (hyes : Runs (body (statement room) scope) scope env yes.mentions yes.tokens (yes.image ·)
      ((r.prepend no.tokens).cons (wordAt .elseKw elseWord)))
    (hno : ∀ scope', scope'.Ready env no.mentions →
      Runs (body (statement room) scope') scope' env no.mentions no.tokens (no.image ·) r)
    (hr : r.Clean) :
    Runs (statement (room + 1) scope) scope env
      (Grammar.Statement.branchElse word condition yes elseWord no).mentions
      (Grammar.Statement.branchElse word condition yes elseWord no).tokens
      ((Grammar.Statement.branchElse word condition yes elseWord no).image ·) r := by
  have hfits : Fits scope env room condition.inner.uses condition.inner.depth :=
    hready.left.fits hdepth
  have hbodies := hready.right hready.left.grows
  obtain ⟨scope₁, hrun₁, hgrows₁⟩ := hyes
  obtain ⟨scope₂, hrun₂, hgrows₂⟩ := hno scope₁ (hbodies.right hgrows₁)
  have helse : ((r.prepend no.tokens).cons (wordAt .elseKw elseWord)).Clean :=
    Stream.clean_cons rfl _
  have hbody := helse.prepend yes.proper
  have hcondition := condition_prepend .ifKw condition hfits hbody
  refine ⟨scope₂, ?_, hready.left.grows.trans (hgrows₁.trans hgrows₂)⟩
  simp only [Grammar.Statement.tokens, Stream.prepend_cons, Stream.prepend_append, statement,
    statementWith, Opening.into, expr, peek_bind, Stream.current_cons]
  rw [bind_of_ok (advance_cons rfl (hbody.prepend condition.proper)), branch,
    bind_of_ok hcondition, bind_of_ok hrun₁]
  dsimp only
  rw [bind_of_ok (accept_cons rfl (hr.prepend no.proper)), if_pos rfl, bind_of_ok hrun₂]
  rfl

theorem loop_runs (word : Span) (condition : Grammar.Condition) (inner : Grammar.Body)
    (hready : scope.Ready env (condition.inner.uses.map .use ++ inner.mentions))
    (hdepth : condition.inner.depth ≤ room)
    (hinner : Runs (body (statement room) scope) scope env inner.mentions inner.tokens
      (inner.image ·) r) (hr : r.Clean) :
    Runs (statement (room + 1) scope) scope env
      (Grammar.Statement.loop word condition inner).mentions
      (Grammar.Statement.loop word condition inner).tokens
      ((Grammar.Statement.loop word condition inner).image ·) r := by
  obtain ⟨scope', hrun, hgrows⟩ := hinner
  have hfits : Fits scope env room condition.inner.uses condition.inner.depth :=
    hready.left.fits hdepth
  have hbody := hr.prepend inner.proper
  have hcondition := condition_prepend .whileKw condition hfits hbody
  refine ⟨scope', ?_, hready.left.grows.trans hgrows⟩
  simp only [Grammar.Statement.tokens, Stream.prepend_cons, Stream.prepend_append, statement,
    statementWith, Opening.into, expr, peek_bind, Stream.current_cons]
  rw [bind_of_ok (advance_cons rfl (hbody.prepend condition.proper)), loop,
    bind_of_ok hcondition, bind_of_ok hrun]
  rfl

theorem statementsFrom_cons {first : Grammar.Statement} {rest : Grammar.Statements}
    {scope₁ scope₂ : Scope} {found : List Statement}
    (hfirst : statement room scope ((r.prepend rest.tokens).prepend first.tokens) =
      .ok (scope₁, first.image env) (r.prepend rest.tokens))
    (hlater : statementsFrom (statement room) (scope₁, found ++ first.image env)
      (r.prepend rest.tokens) = .ok (scope₂, found ++ first.image env ++ rest.image env) r) :
    statementsFrom (statement room) (scope, found)
      (r.prepend (first.tokens ++ rest.tokens)) =
      .ok (scope₂, found ++ (first.image env ++ rest.image env)) r := by
  obtain ⟨kind, span, more, htokens, hstarts⟩ := statement_starts first
  have hkind : ¬ (((r.prepend rest.tokens).prepend first.tokens).current.kind = .symbol .rbrace ∨
      ((r.prepend rest.tokens).prepend first.tokens).current.kind = .eos) := by
    rw [htokens, Stream.prepend_cons, Stream.current_cons]
    rintro (rfl | rfl) <;> exact absurd hstarts (by decide)
  rw [Stream.prepend_append, ← List.append_assoc, ← hlater]
  refine iterate_of_some ?_ ?_
  · dsimp only
    rw [peek_bind, if_neg hkind, bind_of_ok hfirst]
    rfl
  · rw [Stream.input_tokens, Stream.input_tokens, Stream.size_prepend first.tokens, htokens,
      List.length_cons]
    omega

mutual

theorem statement_runs (t : Grammar.Statement) {scope : Scope} {room : Nat} {r : Stream}
    (hready : scope.Ready env t.mentions) (hdepth : t.depth ≤ room) (hnearest : t.NearestElse)
    (hr : r.Clean) (hopen : t.endsOpen = true → r.current.kind ≠ .keyword .elseKw) :
    Runs (statement room scope) scope env t.mentions t.tokens (t.image ·) r := by
  match t, hready, hdepth, hnearest, hopen with
  | .block opening inner closing, hready, hdepth, hnearest, hopen =>
    obtain ⟨less, rfl⟩ := Nat.exists_eq_succ_of_ne_zero (Nat.ne_zero_of_lt hdepth)
    have hinner := statements_run inner hready (Nat.le_of_succ_le_succ hdepth) hnearest
      (Stream.clean_cons (t := symbolAt .rbrace closing) rfl r) rfl []
    obtain ⟨scope', hrun, hgrows⟩ := block_runs inner closing hinner hr
    have hclean : (r.prepend (inner.tokens ++ [symbolAt .rbrace closing])).Clean :=
      hr.prepend (Token.proper_append.2
        ⟨inner.proper, by simp [Token.isTerminal, Kind.isTerminal]⟩)
    refine ⟨scope', ?_, hgrows⟩
    rw [Grammar.Statement.tokens, Stream.prepend_cons, statement, statementWith, peek_bind]
    exact (bind_of_ok (advance_cons rfl hclean) _).trans hrun
  | .branch word condition yes, hready, hdepth, hnearest, hopen =>
    obtain ⟨less, rfl⟩ := Nat.exists_eq_succ_of_ne_zero (Nat.ne_zero_of_lt hdepth)
    obtain ⟨hdepth₁, hdepth₂⟩ := Nat.max_le.1 (Nat.le_of_succ_le_succ hdepth)
    have hyes := body_runs yes (hready.right hready.left.grows) hdepth₂ hnearest hr
      (fun _ => hopen rfl)
    exact branch_runs word condition yes hready hdepth₁ hyes hr (hopen rfl)
  | .branchElse word condition yes elseWord no, hready, hdepth, hnearest, hopen =>
    obtain ⟨less, rfl⟩ := Nat.exists_eq_succ_of_ne_zero (Nat.ne_zero_of_lt hdepth)
    obtain ⟨hdepth₁, hdepth₂⟩ := Nat.max_le.1 (Nat.le_of_succ_le_succ hdepth)
    obtain ⟨hdepth₂, hdepth₃⟩ := Nat.max_le.1 hdepth₂
    obtain ⟨hclosed, hnearest₁, hnearest₂⟩ := hnearest
    have hyes := body_runs yes (hready.right hready.left.grows).left hdepth₂ hnearest₁
      (Stream.clean_cons (t := wordAt .elseKw elseWord) rfl (r.prepend no.tokens))
      (fun h => by rw [hclosed] at h; exact absurd h (by decide))
    have hno := fun (scope' : Scope) (hready' : scope'.Ready env no.mentions) =>
      body_runs no hready' hdepth₃ hnearest₂ hr hopen
    exact branchElse_runs word condition yes elseWord no hready hdepth₁ hyes hno hr
  | .loop word condition inner, hready, hdepth, hnearest, hopen =>
    obtain ⟨less, rfl⟩ := Nat.exists_eq_succ_of_ne_zero (Nat.ne_zero_of_lt hdepth)
    obtain ⟨hdepth₁, hdepth₂⟩ := Nat.max_le.1 (Nat.le_of_succ_le_succ hdepth)
    have hinner := body_runs inner (hready.right hready.left.grows) hdepth₂ hnearest hr hopen
    exact loop_runs word condition inner hready hdepth₁ hinner hr
  | .brk word semi, hready, _, _, _ =>
    refine ⟨scope, ?_, hready.grows_nil⟩
    rw [statement_eq_flat (by rfl)]
    exact jump_prepend .breakKw word semi _ hr
  | .cont word semi, hready, _, _, _ =>
    refine ⟨scope, ?_, hready.grows_nil⟩
    rw [statement_eq_flat (by rfl)]
    exact jump_prepend .continueKw word semi _ hr
  | .empty semi, hready, _, _, _ =>
    refine ⟨scope, ?_, hready.grows_nil⟩
    rw [statement_eq_flat (by rfl)]
    exact bind_of_ok (advance_cons rfl hr) _
  | .ret word value semi, hready, hdepth, _, _ =>
    exact ret_runs word value semi hready hdepth hr
  | .declare d, hready, hdepth, _, _ => exact declare_runs d hready hdepth hr
  | .call callee span opening args closing semi, hready, hdepth, _, _ =>
    exact call_runs callee span opening args closing semi hready hdepth hr
  | .assign markers name span eq value semi, hready, hdepth, _, _ =>
    exact assign_runs markers name span eq value semi hready hdepth hr

theorem body_runs (t : Grammar.Body) {scope : Scope} {room : Nat} {r : Stream}
    (hready : scope.Ready env t.mentions) (hdepth : t.depth ≤ room) (hnearest : t.NearestElse)
    (hr : r.Clean) (hopen : t.endsOpen = true → r.current.kind ≠ .keyword .elseKw) :
    Runs (body (statement room) scope) scope env t.mentions t.tokens (t.image ·) r := by
  match t, hready, hdepth, hnearest, hopen with
  | .block opening inner closing, hready, hdepth, hnearest, _ =>
    have hinner := statements_run inner hready hdepth hnearest
      (Stream.clean_cons (t := symbolAt .rbrace closing) rfl r) rfl []
    exact body_block_runs opening inner closing hinner hr
  | .single statement, hready, hdepth, hnearest, hopen =>
    rcases block_or_ne_lbrace statement with ⟨opening, inner, closing, rfl⟩ | hne
    · -- the parser takes the braces of a block for those of the body
      have hinner := statements_run inner hready (Nat.le_of_succ_le hdepth) hnearest
        (Stream.clean_cons (t := symbolAt .rbrace closing) rfl r) rfl []
      exact body_block_runs opening inner closing hinner hr
    · obtain ⟨scope', hrun, hgrows⟩ :=
        statement_runs statement hready hdepth hnearest hr hopen
      refine ⟨scope', ?_, hgrows⟩
      rw [Grammar.Body.tokens, body, bind_of_ok (accept_of_ne (hne r)), if_neg (by decide)]
      exact hrun

theorem statements_run (t : Grammar.Statements) {scope : Scope} {room : Nat} {r : Stream}
    (hready : scope.Ready env t.mentions) (hdepth : t.depth ≤ room) (hnearest : t.NearestElse)
    (hr : r.Clean) (hend : r.current.kind = .symbol .rbrace) (found : List Statement) :
    Runs (fun s => statementsFrom (statement room) (scope, found) s) scope env t.mentions t.tokens
      (found ++ t.image ·) r := by
  match t, hready, hdepth, hnearest with
  | .nil, hready, _, _ =>
    refine ⟨scope, ?_, hready.grows_nil⟩
    simp only [Grammar.Statements.image, List.append_nil]
    refine iterate_of_none ?_
    simp [Grammar.Statements.tokens, hend]
  | .cons first rest, hready, hdepth, hnearest =>
    obtain ⟨hdepth₁, hdepth₂⟩ := Nat.max_le.1 hdepth
    obtain ⟨scope₁, hrun₁, hgrows₁⟩ := statement_runs first hready.left hdepth₁ hnearest.1
      (hr.prepend rest.proper) (fun _ => current_statements rest hend)
    obtain ⟨scope₂, hrun₂, hgrows₂⟩ := statements_run rest (hready.right hgrows₁) hdepth₂
      hnearest.2 hr hend (found ++ first.image env)
    exact ⟨scope₂, statementsFrom_cons hrun₁ hrun₂, hgrows₁.trans hgrows₂⟩

end

end

end Parser
end Shc
