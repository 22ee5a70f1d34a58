import Shc.Proofs.Sound.Expr

/-!
# Derived expressions are accepted

The converse of soundness: in front of the tokens of a derivation each parser
succeeds, gives the image and stops behind them, provided that the names are known,
that there is room, and that the token behind cannot go on with the expression.
An expression is gone on with by an operator of its layers and, where it ends in a
name, by an opening parenthesis.

The induction follows the derivations.  The parsers recurse on the room instead,
so every statement leaves the room open and asks only that the depth fits.
-/

namespace Shc

open Token (Kind)
open Grammar (symbolAt wordAt nameAt)

/-! ### Tokens of derivations are not terminal -/

@[simp] theorem Token.proper_nil : Token.Proper [] := by
  intro t ht
  cases ht

@[simp] theorem Token.proper_cons {t : Token} {ts : List Token} :
    Token.Proper (t :: ts) ↔ t.isTerminal = false ∧ Token.Proper ts :=
  List.forall_mem_cons

@[simp] theorem Token.proper_append {ts us : List Token} :
    Token.Proper (ts ++ us) ↔ Token.Proper ts ∧ Token.Proper us :=
  List.forall_mem_append

theorem Token.proper_map {α : Type} {f : α → Token} (h : ∀ a, (f a).isTerminal = false)
    (as : List α) : Token.Proper (as.map f) := by
  intro t ht
  obtain ⟨a, -, rfl⟩ := List.mem_map.1 ht
  exact h a

namespace Grammar

mutual

theorem Factor.proper : (t : Factor) → Token.Proper t.tokens
  | .int _ _ | .char _ _ | .bool _ _ | .string _ _ | .var _ _ => by
    simp [Factor.tokens, Token.isTerminal, Kind.isTerminal]
  | .paren _ inner _ => by
    simp [Factor.tokens, Token.isTerminal, Kind.isTerminal, inner.proper]
  | .call _ _ _ args _ => by
    simp [Factor.tokens, Token.isTerminal, Kind.isTerminal, args.proper]

theorem Unary.proper : (t : Unary) → Token.Proper t.tokens
  | .signed _ _ operand => by
    simp [Unary.tokens, Token.isTerminal, Kind.isTerminal, operand.proper]
  | .marked _ more _ _ => by
    have hmore : Token.Proper (more.map (symbolAt .caret)) := Token.proper_map (fun _ => rfl) more
    simp [Unary.tokens, Token.isTerminal, Kind.isTerminal, hmore]
  | .factor factor => factor.proper

theorem Chain.proper {layers : List Layer} : (t : Chain layers) → Token.Proper t.tokens
  | .unary operand => operand.proper
  | .layer first rest => Token.proper_append.2 ⟨first.proper, rest.proper⟩

theorem Links.proper {layer : Layer} {below : List Layer} :
    (t : Links layer below) → Token.Proper t.tokens
  | .nil => Token.proper_nil
  | .cons _ _ _ operand rest => by
    simp [Links.tokens, Token.isTerminal, Kind.isTerminal, operand.proper, rest.proper]

theorem Args.proper : (t : Args) → Token.Proper t.tokens
  | .none => Token.proper_nil
  | .some first rest => Token.proper_append.2 ⟨first.proper, rest.proper⟩

theorem MoreArgs.proper : (t : MoreArgs) → Token.Proper t.tokens
  | .nil => Token.proper_nil
  | .cons _ arg rest => by
    simp [MoreArgs.tokens, Token.isTerminal, Kind.isTerminal, arg.proper, rest.proper]

end

theorem TypeName.proper (t : TypeName) : Token.Proper t.tokens :=
  Token.proper_append.2
    ⟨Token.proper_map (fun _ => rfl) _, by simp [Token.isTerminal, Kind.isTerminal]⟩

theorem Param.proper (p : Param) : Token.Proper p.tokens := by
  simp [Param.tokens, Token.isTerminal, Kind.isTerminal, p.type.proper]

theorem Params.proper_moreTokens (ps : List (Span × Param)) : Token.Proper (moreTokens ps) := by
  induction ps with
  | nil => exact Token.proper_nil
  | cons p ps ih => simp [moreTokens, Token.isTerminal, Kind.isTerminal, p.2.proper, ih]

end Grammar

namespace Parser

/-! ### Types and parameters -/

theorem markers_prepend (spans : List Span) {r : Stream} (hr : r.Clean)
    (hnext : r.current.kind ≠ .symbol .caret) :
    markers (r.prepend (spans.map (symbolAt .caret))) = .ok spans.length r := by
  have hrun : ∀ n, iterate (fun n => do
      if ← accept (.symbol .caret) then return some (n + 1) else return none) n
      (r.prepend (spans.map (symbolAt .caret))) = .ok (n + spans.length) r := by
    induction spans with
    | nil =>
      intro n
      exact acceptLoop_of_ne hnext
    | cons span spans ih =>
      intro n
      have hclean := hr.prepend (Token.proper_map (f := symbolAt .caret) (fun _ => rfl) spans)
      rw [List.map_cons, Stream.prepend_cons,
        acceptLoop_cons rfl hclean (pure_run (some (n + 1)) _) (Nat.le_refl _), ih (n + 1)]
      rw [List.length_cons, Nat.add_right_comm, Nat.add_assoc]
  rw [markers, hrun 0, Nat.zero_add]

theorem base?_keyword (base : Base) : base? (.keyword base.keyword) = some base := by
  cases base <;> rfl

theorem type_prepend (t : Grammar.TypeName) {r : Stream} (hr : r.Clean) :
    type (r.prepend t.tokens) = .ok t.image r := by
  have hword : (r.prepend [wordAt t.base.keyword t.span]).Clean :=
    hr.prepend (by simp [Token.isTerminal, Kind.isTerminal])
  rw [Grammar.TypeName.tokens, Stream.prepend_append, type,
    bind_of_ok (markers_prepend t.markers hword (by simp)), peek_bind]
  simp only [Stream.prepend_cons, Stream.prepend_nil, Stream.current_cons, base?_keyword]
  exact bind_of_ok (advance_cons rfl hr) _

/-! ### What can stand at the ends of an expression -/

/-- Whether an expression can start with a token of this kind. -/
def startsExpr : Kind → Bool
  | .int _ | .char _ | .bool _ | .string _ | .ident _ => true
  | .symbol .lparen | .symbol .caret | .symbol .plus | .symbol .minus => true
  | _ => false

/-- An expression of these layers ends in front of a token of this kind. -/
def EndsLayers (layers : List Layer) (kind : Kind) : Prop :=
  kind ≠ .symbol .lparen ∧ ∀ layer ∈ layers, operator? layer kind = none

theorem operator?_symbol (layer : Layer) (op : Operator) :
    operator? layer (.symbol op.symbol) = if op.layer = layer then some op else none := by
  cases op <;> cases layer <;> rfl

theorem factor_starts (t : Grammar.Factor) :
    ∃ kind span rest, t.tokens = ⟨kind, span⟩ :: rest ∧ sign? kind = none ∧
      kind ≠ .symbol .caret ∧ startsExpr kind = true := by
  cases t with
  | paren opening inner closing => exact ⟨_, _, _, rfl, rfl, by simp, rfl⟩
  | int | char | bool | string | var | call => exact ⟨_, _, _, rfl, rfl, by simp, rfl⟩

theorem unary_starts (t : Grammar.Unary) :
    ∃ kind span rest, t.tokens = ⟨kind, span⟩ :: rest ∧ startsExpr kind = true := by
  cases t with
  | signed sign span operand => exact ⟨_, _, _, rfl, by cases sign <;> rfl⟩
  | marked first more name span => exact ⟨_, _, _, rfl, rfl⟩
  | factor factor =>
    obtain ⟨kind, span, rest, htokens, -, -, hstarts⟩ := factor_starts factor
    exact ⟨kind, span, rest, htokens, hstarts⟩

theorem chain_starts {layers : List Layer} : (t : Grammar.Chain layers) →
    ∃ kind span rest, t.tokens = ⟨kind, span⟩ :: rest ∧ startsExpr kind = true
  | .unary operand => unary_starts operand
  | .layer first rest => by
    obtain ⟨kind, span, more, htokens, hstarts⟩ := chain_starts first
    exact ⟨kind, span, more ++ rest.tokens, by simp [Grammar.Chain.tokens, htokens], hstarts⟩

theorem current_chain {layers : List Layer} (t : Grammar.Chain layers) (r : Stream) :
    startsExpr (r.prepend t.tokens).current.kind = true := by
  obtain ⟨kind, span, rest, htokens, hstarts⟩ := chain_starts t
  rw [htokens]
  exact hstarts

theorem current_loc_chain {layers : List Layer} (t : Grammar.Chain layers) (r : Stream) :
    (r.prepend t.tokens).current.loc = t.start := by
  obtain ⟨first, rest, htokens, hloc⟩ := t.exists_first
  rw [htokens]
  exact hloc

/-! ### Expressions -/

/-- The names that occur denote in the scope what they denote in the environment, and
    what is open at once fits into the room. -/
structure Fits (scope : Scope) (env : String → Variable) (room : Nat) (uses : List String)
    (depth : Nat) : Prop where
  resolves : ∀ name ∈ uses, scope.find? name = some (env name)
  depth_le : depth ≤ room

namespace Fits

variable {scope : Scope} {env : String → Variable} {room : Nat} {uses uses' : List String}
  {depth depth' : Nat}

theorem left (h : Fits scope env room (uses ++ uses') (max depth depth')) :
    Fits scope env room uses depth :=
  ⟨fun name hname => h.resolves name (List.mem_append_left _ hname),
    (Nat.max_le.1 h.depth_le).1⟩

theorem right (h : Fits scope env room (uses ++ uses') (max depth depth')) :
    Fits scope env room uses' depth' :=
  ⟨fun name hname => h.resolves name (List.mem_append_right _ hname),
    (Nat.max_le.1 h.depth_le).2⟩

/-- A construct that opens a level leaves room for what is inside it. -/
theorem inner (h : Fits scope env room uses (depth + 1)) :
    ∃ less, room = less + 1 ∧ Fits scope env less uses depth := by
  obtain ⟨hresolves, hdepth⟩ := h
  cases room with
  | zero => exact absurd hdepth (Nat.not_succ_le_zero depth)
  | succ less => exact ⟨less, rfl, hresolves, Nat.le_of_succ_le_succ hdepth⟩

end Fits

theorem unary_eq_unaryWith (scope : Scope) (room : Nat) :
    unary scope room = unaryWith scope (operands scope room) := by
  cases room <;> rfl

/-- Some layers over the given unary operands. -/
def layersOf (unary : Parser Unary) (layers : List Layer) : Parser Value :=
  layers.foldr chain (do return .unary (← unary))

theorem valueOf_eq_layersOf (unary : Parser Unary) :
    valueOf unary = layersOf unary Grammar.allLayers :=
  rfl

theorem exprOf_of_ok {env : String → Variable} {unary : Parser Unary} {s s' : Stream}
    {t : Grammar.Expr} (h : layersOf unary Grammar.allLayers s = .ok (t.image env) s') :
    exprOf unary s = .ok (t.expr env) s' := by
  rw [← Grammar.Chain.single_image, exprOf, valueOf_eq_layersOf]
  exact bind_of_ok h _

theorem resolve_of_find? {scope : Scope} {n : String} {v : Variable} (h : scope.find? n = some v)
    (span : Span) (usage : Nat) (loc : Location) (s : Stream) :
    resolve scope n span usage loc s = .ok ⟨v, usage, loc⟩ s := by
  simp [resolve, h]

theorem marked_prepend {scope : Scope} {n : String} {v : Variable} (hfind : scope.find? n = some v)
    (spans : List Span) (span : Span) {r : Stream} (hr : r.Clean)
    (hnext : r.current.kind ≠ .symbol .lparen) :
    marked scope (r.prepend (spans.map (symbolAt .caret) ++ [nameAt n span])) =
      .ok ⟨v, spans.length, (spans.head?.getD span).start⟩ r := by
  have hname : (r.prepend [nameAt n span]).Clean :=
    hr.prepend (by simp [Token.isTerminal, Kind.isTerminal])
  have hloc : (r.prepend (spans.map (symbolAt .caret) ++ [nameAt n span])).current.loc =
      (spans.head?.getD span).start := by
    cases spans <;> rfl
  rw [marked, peek_bind, hloc, Stream.prepend_append,
    bind_of_ok (markers_prepend spans hname (by simp)), peek_bind]
  simp only [Stream.prepend_cons, Stream.prepend_nil, Stream.current_cons]
  rw [bind_of_ok (advance_cons rfl hr), peek_bind, if_neg hnext]
  exact resolve_of_find? hfind _ _ _ _

theorem endsLayers_symbol {s : Symbol} (hop : Operator.ofSymbol? s = none) (hne : s ≠ .lparen)
    (layers : List Layer) : EndsLayers layers (.symbol s) := by
  refine ⟨by simpa using hne, ?_⟩
  intro layer _
  simp [operator?, hop]

/-- The operands of the layers below end in front of what follows them. -/
theorem links_ends {layer : Layer} {below : List Layer} (hnotMem : layer ∉ below)
    (t : Grammar.Links layer below) {r : Stream}
    (hr : EndsLayers (layer :: below) r.current.kind) :
    EndsLayers below (r.prepend t.tokens).current.kind := by
  cases t with
  | nil => exact ⟨hr.1, fun l hl => hr.2 l (List.mem_cons_of_mem _ hl)⟩
  | cons op belongs span operand rest =>
    constructor
    · cases op <;> simp [Grammar.Links.tokens, Operator.symbol]
    · intro l hl
      have hne : op.layer ≠ l := by
        intro heq
        exact hnotMem (Grammar.mem_operators.1 belongs ▸ heq ▸ hl)
      simp [Grammar.Links.tokens, operator?_symbol, hne]

theorem moreArgs_ends (t : Grammar.MoreArgs) {r : Stream}
    (hnext : r.current.kind = .symbol .rparen) :
    EndsLayers Grammar.allLayers (r.prepend t.tokens).current.kind := by
  cases t with
  | nil =>
    rw [Grammar.MoreArgs.tokens, Stream.prepend_nil, hnext]
    exact endsLayers_symbol rfl (by simp) _
  | cons comma arg rest => exact endsLayers_symbol rfl (by simp) _

theorem sign?_symbol (sign : Sign) : sign? (.symbol sign.symbol) = some sign := by
  cases sign <;> rfl

/-- An expression starts with none of the symbols that end one. -/
theorem ne_symbol_of_starts {kind : Kind} {s : Symbol} (h : startsExpr kind = true)
    (hs : startsExpr (.symbol s) = false) : kind ≠ .symbol s := by
  rintro rfl
  rw [hs] at h
  exact absurd h (by decide)

section

variable {scope : Scope} {env : String → Variable}

mutual

theorem factor_prepend (t : Grammar.Factor) {room : Nat} {r : Stream}
    (hfits : Fits scope env room t.uses t.depth) (hr : r.Clean)
    (hnext : r.current.kind ≠ .symbol .lparen) :
    factor scope (operands scope room) (r.prepend t.tokens) = .ok (t.image env) r := by
  match t, hfits with
  | .int _ _, _ | .char _ _, _ | .bool _ _, _ | .string _ _, _ =>
    exact bind_of_ok (advance_cons rfl hr) _
  | .paren opening inner closing, hfits =>
    obtain ⟨less, rfl, hinner⟩ := hfits.inner
    have hclose : (r.cons (symbolAt .rparen closing)).Clean := Stream.clean_cons rfl r
    have hvalue := chain_prepend inner (by decide) hinner hclose
      (endsLayers_symbol rfl (by simp) _)
    rw [Grammar.Factor.tokens, Stream.prepend_cons, Stream.prepend_append, Stream.prepend_cons,
      Stream.prepend_nil, factor, peek_bind, Stream.current_cons]
    dsimp only [operands, Opening.into]
    rw [bind_of_ok (advance_cons rfl (hclose.prepend inner.proper)),
      bind_of_ok (exprOf_of_ok hvalue), bind_of_ok (expect_cons rfl hr)]
    rfl
  | .var name span, hfits =>
    have hfind := hfits.resolves name List.mem_cons_self
    rw [Grammar.Factor.tokens, Stream.prepend_cons, Stream.prepend_nil, factor, peek_bind,
      Stream.current_cons]
    dsimp only
    rw [bind_of_ok (advance_cons rfl hr), bind_of_ok (accept_of_ne hnext), if_neg (by decide),
      bind_of_ok (resolve_of_find? hfind _ _ _ _)]
    rfl
  | .call callee span opening args closing, hfits =>
    obtain ⟨less, rfl, hinner⟩ := hfits.inner
    have hclose : (r.cons (symbolAt .rparen closing)).Clean := Stream.clean_cons rfl r
    have hargs := args_prepend args closing hinner hr
    rw [Grammar.Factor.tokens, Stream.prepend_cons, Stream.prepend_cons, Stream.prepend_append,
      Stream.prepend_cons, Stream.prepend_nil, factor, peek_bind, Stream.current_cons]
    dsimp only [operands, Opening.into]
    rw [bind_of_ok (advance_cons rfl (Stream.clean_cons rfl _)),
      bind_of_ok (accept_cons rfl (hclose.prepend args.proper)), if_pos rfl, bind_of_ok hargs]
    rfl

theorem unary_prepend (t : Grammar.Unary) {room : Nat} {r : Stream}
    (hfits : Fits scope env room t.uses t.depth) (hr : r.Clean)
    (hnext : r.current.kind ≠ .symbol .lparen) :
    unary scope room (r.prepend t.tokens) = .ok (t.image env) r := by
  rw [unary_eq_unaryWith, unaryWith, peek_bind]
  match t, hfits with
  | .signed sign span operand, hfits =>
    obtain ⟨less, rfl, hinner⟩ := hfits.inner
    have hoperand := unary_prepend operand hinner hr hnext
    simp only [Grammar.Unary.tokens, Stream.prepend_cons, Stream.current_cons, sign?_symbol,
      operands, Opening.into]
    rw [bind_of_ok (advance_cons rfl (hr.prepend operand.proper)), bind_of_ok hoperand]
    rfl
  | .marked first more name span, hfits =>
    have hfind := hfits.resolves name List.mem_cons_self
    have hmarked := marked_prepend hfind (first :: more) span hr hnext
    exact (bind_of_ok hmarked _)
  | .factor f, hfits =>
    obtain ⟨kind, span, rest, htokens, hsign, hcaret, -⟩ := factor_starts f
    have hkind : (r.prepend f.tokens).current.kind = kind := by rw [htokens]; rfl
    have hfactor := factor_prepend f hfits hr hnext
    rw [Grammar.Unary.tokens, hkind]
    simp only [hsign, if_neg hcaret]
    exact bind_of_ok hfactor _

theorem chain_prepend {layers : List Layer} (t : Grammar.Chain layers) {room : Nat} {r : Stream}
    (hlayers : layers.Nodup) (hfits : Fits scope env room t.uses t.depth) (hr : r.Clean)
    (hends : EndsLayers layers r.current.kind) :
    layersOf (unary scope room) layers (r.prepend t.tokens) = .ok (t.image env) r := by
  match t, hfits with
  | .unary operand, hfits =>
    exact bind_of_ok (unary_prepend operand hfits hr hends.1) _
  | .layer first rest, hfits =>
    obtain ⟨hnotMem, hbelow⟩ := List.nodup_cons.1 hlayers
    have hfirst := chain_prepend first hbelow hfits.left (hr.prepend rest.proper)
      (links_ends hnotMem rest hends)
    have hloc : (r.prepend (Grammar.Chain.layer first rest).tokens).current.loc = first.start :=
      current_loc_chain (.layer first rest) r
    rw [layersOf, List.foldr_cons, chain, peek_bind, hloc, Grammar.Chain.tokens,
      Stream.prepend_append]
    exact (bind_of_ok hfirst _).trans (links_prepend rest hlayers hfits.right hr hends rfl)

theorem links_prepend {layer : Layer} {below : List Layer} (t : Grammar.Links layer below)
    {room : Nat} {r : Stream} (hlayers : (layer :: below).Nodup)
    (hfits : Fits scope env room t.uses t.depth) (hr : r.Clean)
    (hends : EndsLayers (layer :: below) r.current.kind) {start : Location} {left : Value}
    (hstart : left.loc = start) :
    iterate (fun (left : Value) => do
      match operator? layer (← peek).kind with
      | none => return none
      | some op =>
        let _ ← advance
        return some (left.extend op (← layersOf (unary scope room) below))) left
      (r.prepend t.tokens) = .ok (t.image env start left) r := by
  match t, hfits with
  | .nil, _ =>
    refine iterate_of_none ?_
    simp [Grammar.Links.tokens, hends.2 layer List.mem_cons_self]
  | .cons op belongs span operand rest, hfits =>
    obtain ⟨hnotMem, hbelow⟩ := List.nodup_cons.1 hlayers
    have hrest := hr.prepend rest.proper
    have hoperand := chain_prepend operand hbelow hfits.left hrest (links_ends hnotMem rest hends)
    have hextended : (left.extend op (operand.image env)).loc = start := hstart
    have hlater := links_prepend rest hlayers hfits.right hr hends hextended
    rw [Grammar.Links.tokens, Stream.prepend_cons, Stream.prepend_append, iterate_of_some, hlater]
    · rw [Value.extend, hstart]
      rfl
    · rw [peek_bind, Stream.current_cons]
      simp only [operator?_symbol, if_pos (Grammar.mem_operators.1 belongs)]
      rw [bind_of_ok (advance_cons rfl (hrest.prepend operand.proper)), bind_of_ok hoperand]
      rfl
    · simp only [Stream.input_tokens, Stream.size_cons, Stream.size_prepend]
      omega

theorem args_prepend (t : Grammar.Args) {room : Nat} (closing : Span) {r : Stream}
    (hfits : Fits scope env room t.uses t.depth) (hr : r.Clean) :
    argsOf (unary scope room) ((r.cons (symbolAt .rparen closing)).prepend t.tokens) =
      .ok (t.image env) r := by
  rw [argsOf, peek_bind]
  match t, hfits with
  | .none, _ =>
    rw [Grammar.Args.tokens, Stream.prepend_nil, Stream.current_cons, if_pos rfl]
    exact bind_of_ok (expect_cons rfl hr) _
  | .some first rest, hfits =>
    have hclose : (r.cons (symbolAt .rparen closing)).Clean := Stream.clean_cons rfl r
    have hrest := moreArgs_prepend rest hfits.right hclose rfl [first.expr env]
    have hfirst := chain_prepend first (by decide) hfits.left (hclose.prepend rest.proper)
      (moreArgs_ends rest rfl)
    have hstart := current_chain first ((r.cons (symbolAt .rparen closing)).prepend rest.tokens)
    rw [Grammar.Args.tokens, Stream.prepend_append, if_neg (ne_symbol_of_starts hstart rfl)]
    have hlist : commaList (exprOf (unary scope room)) _ = .ok _ _ :=
      (bind_of_ok (exprOf_of_ok hfirst) _).trans hrest
    rw [bind_of_ok hlist]
    exact bind_of_ok (expect_cons rfl hr) _

theorem moreArgs_prepend (t : Grammar.MoreArgs) {room : Nat} {r : Stream}
    (hfits : Fits scope env room t.uses t.depth) (hr : r.Clean)
    (hnext : r.current.kind = .symbol .rparen) (found : List Expr) :
    iterate (fun found => do
      if ← accept (.symbol .comma) then return some (found ++ [← exprOf (unary scope room)])
      else return none) found (r.prepend t.tokens) = .ok (found ++ t.image env) r := by
  match t, hfits with
  | .nil, _ =>
    rw [Grammar.MoreArgs.image, List.append_nil]
    exact acceptLoop_of_ne (by simp [Grammar.MoreArgs.tokens, hnext])
  | .cons comma arg rest, hfits =>
    have hclean := hr.prepend rest.proper
    have harg := chain_prepend arg (by decide) hfits.left hclean (moreArgs_ends rest hnext)
    have hrest := moreArgs_prepend rest hfits.right hr hnext
      (found ++ [arg.expr env])
    rw [Grammar.MoreArgs.tokens, Stream.prepend_cons, Stream.prepend_append,
      acceptLoop_cons rfl (hclean.prepend arg.proper) (bind_of_ok (exprOf_of_ok harg) _) ?_,
      hrest]
    · simp [Grammar.MoreArgs.image, Grammar.Chain.expr]
    · simp only [Stream.size_prepend]
      omega

end

end

end Parser
end Shc
