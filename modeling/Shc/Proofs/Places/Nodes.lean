import Shc.Proofs.Grammar
import Shc.Proofs.RoundTrip.Spelling

/-!
# The text of a node

A walk through a program meets its nodes: functions, variables, statements, slots,
expressions, values of every layer of operators, unary operands, factors, references and
callees.  A leaf is a node of its own, next to the value in it.

A walk through a derivation meets the same nodes, each together with the tokens that it is
derived from.  These stand together among the tokens of the whole, and the place of the
node is that of the first of them.
-/

namespace Shc

open Token (Kind)

/-- What a walk through a program meets.  A value that is a bare unary operand is met as that. -/
inductive Node where
  | function (f : Function)
  | declared (v : Variable)
  | statement (s : Statement)
  | slot (s : Slot)
  | expr (e : Expr)
  | value (v : Value)
  | unary (u : Unary)
  | factor (f : Factor)
  | reference (r : Reference)
  | callee (f : Function)

namespace Node

/-- The place that the program records for a node. -/
def loc : Node → Location
  | function f => f.loc
  | declared v => v.loc
  | statement s => s.loc
  | slot s => s.loc
  | expr e => e.loc
  | value v => v.loc
  | unary u => u.loc
  | factor f => f.loc
  | reference r => r.loc
  | callee f => f.loc

/-- The first token of the node can be of this kind. -/
def Leads : Node → Kind → Prop
  | function _, kind => kind = .keyword .funKw
  | declared v, kind => kind = .ident v.name
  | reference r, kind => kind = if r.usage = 0 then .ident r.name else .symbol .caret
  | callee f, kind => kind = .ident f.name
  | _, _ => True

/-- The tokens `text` stand together among `ts`, and the first of them is at the place of
    the node. -/
structure Placed (ts : List Token) (node : Node) (text : List Token) : Prop where
  within : text <:+: ts
  starts : ∃ first rest, text = first :: rest ∧ node.loc = first.loc ∧ node.Leads first.kind

end Node

/-- All the nodes are placed among the tokens. -/
def Places (ts : List Token) (nodes : List (Node × List Token)) : Prop :=
  ∀ n ∈ nodes, n.1.Placed ts n.2

namespace Places

variable {ts us : List Token} {nodes more : List (Node × List Token)}

theorem nil : Places ts [] := by
  intro n hn
  cases hn

theorem cons {node : Node} {text : List Token} (h : node.Placed ts text) (hmore : Places ts more) :
    Places ts ((node, text) :: more) := by
  intro n hn
  rcases List.mem_cons.1 hn with rfl | hn
  · exact h
  · exact hmore n hn

theorem append (h : Places ts nodes) (hmore : Places ts more) : Places ts (nodes ++ more) := by
  intro n hn
  rcases List.mem_append.1 hn with hn | hn
  · exact h n hn
  · exact hmore n hn

theorem mono (h : Places ts nodes) (hts : ts <:+: us) : Places us nodes := by
  intro n hn
  exact ⟨(h n hn).within.trans hts, (h n hn).starts⟩

end Places

/-! ### Nodes of a program -/

mutual

/-- The nodes of a factor, itself included. -/
def Factor.nodes : Factor → List Node
  | .const value loc => [.factor (.const value loc)]
  | .string value loc => [.factor (.string value loc)]
  | .paren inner loc => .factor (.paren inner loc) :: inner.nodes
  | .var reference => [.factor (.var reference), .reference reference]
  | .call callee args loc =>
    .factor (.call callee args loc) :: .callee callee :: Expr.allNodes args

def Unary.nodes : Unary → List Node
  | .factor f => .unary (.factor f) :: f.nodes
  | .signed sign operand loc => .unary (.signed sign operand loc) :: operand.nodes

def Value.nodes : Value → List Node
  | .unary operand => operand.nodes
  | .leaf operand loc => .value (.leaf operand loc) :: operand.nodes
  | .binary op left right loc => .value (.binary op left right loc) :: (left.nodes ++ right.nodes)

def Slot.nodes : Slot → List Node
  | .mk target value loc =>
    .slot (.mk target value loc) :: (target.toList.map .reference ++ value.nodes)

def Slot.allNodes : List Slot → List Node
  | [] => []
  | slot :: slots => slot.nodes ++ Slot.allNodes slots

def Expr.nodes : Expr → List Node
  | .mk slots loc => .expr (.mk slots loc) :: Slot.allNodes slots

def Expr.allNodes : List Expr → List Node
  | [] => []
  | expr :: exprs => expr.nodes ++ Expr.allNodes exprs

end

mutual

/-- The nodes of a statement, itself included. -/
def Statement.nodes : Statement → List Node
  | .branch condition yes no loc =>
    .statement (.branch condition yes no loc) ::
      (condition.nodes ++ (Statement.allNodes yes ++ Statement.allNodes no))
  | .loop condition body loc =>
    .statement (.loop condition body loc) :: (condition.nodes ++ Statement.allNodes body)
  | .declare v loc => [.statement (.declare v loc), .declared v]
  | .call callee args loc =>
    .statement (.call callee args loc) :: .callee callee :: Expr.allNodes args
  | .ret value loc => .statement (.ret value loc) :: value.elim [] Expr.nodes
  | .brk loc => [.statement (.brk loc)]
  | .cont loc => [.statement (.cont loc)]
  | .assign slot loc => .statement (.assign slot loc) :: slot.nodes

def Statement.allNodes : List Statement → List Node
  | [] => []
  | statement :: statements => statement.nodes ++ Statement.allNodes statements

end

def Function.nodes (f : Function) : List Node :=
  .function f :: (f.params.map .declared ++ (f.locals.map .declared ++ Statement.allNodes f.body))

def Program.nodes (p : Program) : List Node :=
  p.globals.map .declared ++ p.functions.flatMap Function.nodes

theorem Statement.allNodes_append (first second : List Statement) :
    allNodes (first ++ second) = allNodes first ++ allNodes second := by
  induction first with
  | nil => rfl
  | cons statement first ih => simp [allNodes, ih]

theorem Expr.nodes_plainExpr (value : Value) (loc : Location) :
    (Grammar.plainExpr value loc).nodes =
      .expr (Grammar.plainExpr value loc) :: .slot ⟨none, value, loc⟩ :: value.nodes := by
  simp [Grammar.plainExpr, Expr.nodes, Slot.allNodes, Slot.nodes]

/-! ### Nodes of a derivation -/

namespace Grammar

section

variable (env : String → Variable)

/-- An expression and its only slot. -/
def Chain.own (e : Expr) : List (Node × List Token) :=
  [(.expr (e.expr env), e.tokens), (.slot ⟨none, e.image env, e.start⟩, e.tokens)]

def Factor.own (f : Factor) : Node × List Token :=
  (.factor (f.image env), f.tokens)

def Unary.own (u : Unary) : Node × List Token :=
  (.unary (u.image env), u.tokens)

mutual

/-- The nodes of a factor with their tokens. -/
def Factor.nodes : Factor → List (Node × List Token)
  | .int value span => [Factor.own env (.int value span)]
  | .char value span => [Factor.own env (.char value span)]
  | .bool value span => [Factor.own env (.bool value span)]
  | .string value span => [Factor.own env (.string value span)]
  | .paren opening inner closing =>
    Factor.own env (.paren opening inner closing) :: (Chain.own env inner ++ inner.nodes)
  | .var name span =>
    [Factor.own env (.var name span), (.reference ⟨env name, 0, span.start⟩, [nameAt name span])]
  | .call callee span opening args closing =>
    Factor.own env (.call callee span opening args closing) ::
      (.callee (namedOnly callee span.start), [nameAt callee span]) :: args.nodes

def Unary.nodes : Unary → List (Node × List Token)
  | .signed sign span operand => Unary.own env (.signed sign span operand) :: operand.nodes
  | .marked first more name span =>
    [Unary.own env (.marked first more name span),
      (.factor (.var ⟨env name, more.length + 1, first.start⟩),
        (Unary.marked first more name span).tokens),
      (.reference ⟨env name, more.length + 1, first.start⟩,
        (Unary.marked first more name span).tokens)]
  | .factor factor => Unary.own env (.factor factor) :: factor.nodes

def Chain.nodes {layers : List Layer} : Chain layers → List (Node × List Token)
  | .unary operand => operand.nodes
  | .layer first rest =>
    rest.nodes first.start (.leaf (first.image env) first.start) first.tokens
      ((.value (.leaf (first.image env) first.start), first.tokens) :: first.nodes)

/-- The nodes of a layer that starts at `start`, whose operands so far make `left`, from the
    tokens `text`, and have the nodes `found`. -/
def Links.nodes {layer : Layer} {below : List Layer} :
    Links layer below → Location → Value → List Token → List (Node × List Token) →
      List (Node × List Token)
  | .nil, _, _, _, found => found
  | .cons op _ span operand rest, start, left, text, found =>
    rest.nodes start (.binary op left (operand.image env) start)
      (text ++ symbolAt op.symbol span :: operand.tokens)
      ((.value (.binary op left (operand.image env) start),
        text ++ symbolAt op.symbol span :: operand.tokens) :: (found ++ operand.nodes))

def Args.nodes : Args → List (Node × List Token)
  | .none => []
  | .some first rest => Chain.own env first ++ (first.nodes ++ rest.nodes)

def MoreArgs.nodes : MoreArgs → List (Node × List Token)
  | .nil => []
  | .cons _ arg rest => Chain.own env arg ++ (arg.nodes ++ rest.nodes)

end

end

/-! ### Both walks meet the same nodes -/

section

variable {env : String → Variable}

mutual

theorem Factor.map_fst_nodes : (t : Factor) →
    (t.nodes env).map Prod.fst = (t.image env).nodes
  | .int .. | .char .. | .bool .. | .string .. | .var .. => rfl
  | .paren _ inner _ => by
    simp [Factor.nodes, Factor.own, Chain.own, Chain.expr, Factor.image, Shc.Factor.nodes,
      Expr.nodes_plainExpr, inner.map_fst_nodes]
  | .call _ _ _ args _ => by
    simp [Factor.nodes, Factor.own, Factor.image, Shc.Factor.nodes, args.map_fst_nodes]

theorem Unary.map_fst_nodes : (t : Unary) →
    (t.nodes env).map Prod.fst = (t.image env).nodes
  | .signed _ _ operand => by
    simp [Unary.nodes, Unary.own, Unary.image, Shc.Unary.nodes, operand.map_fst_nodes]
  | .marked .. => rfl
  | .factor factor => by
    simp [Unary.nodes, Unary.own, Unary.image, Shc.Unary.nodes, factor.map_fst_nodes]

theorem Chain.map_fst_nodes {layers : List Layer} : (t : Chain layers) →
    (t.nodes env).map Prod.fst = (t.image env).nodes
  | .unary operand => operand.map_fst_nodes
  | .layer first rest => by
    rw [Chain.nodes, Chain.image]
    apply rest.map_fst_nodes
    rw [List.map_cons, first.map_fst_nodes, Value.nodes]

theorem Links.map_fst_nodes {layer : Layer} {below : List Layer} : (t : Links layer below) →
    {start : Location} → {left : Value} → {text : List Token} →
    {found : List (Node × List Token)} → found.map Prod.fst = left.nodes →
    (t.nodes env start left text found).map Prod.fst = (t.image env start left).nodes
  | .nil, _, _, _, _, hfound => hfound
  | .cons op _ _ operand rest, start, left, text, found, hfound => by
    rw [Links.nodes, Links.image]
    apply rest.map_fst_nodes
    rw [List.map_cons, List.map_append, hfound, operand.map_fst_nodes, Value.nodes]

theorem Args.map_fst_nodes : (t : Args) →
    (t.nodes env).map Prod.fst = Expr.allNodes (t.image env)
  | .none => rfl
  | .some first rest => by
    simp [Args.nodes, Chain.own, Chain.expr, Args.image, Shc.Expr.allNodes,
      Expr.nodes_plainExpr, first.map_fst_nodes, rest.map_fst_nodes]

theorem MoreArgs.map_fst_nodes : (t : MoreArgs) →
    (t.nodes env).map Prod.fst = Expr.allNodes (t.image env)
  | .nil => rfl
  | .cons _ arg rest => by
    simp [MoreArgs.nodes, Chain.own, Chain.expr, MoreArgs.image, Shc.Expr.allNodes,
      Expr.nodes_plainExpr, arg.map_fst_nodes, rest.map_fst_nodes]

end

/-! ### Expressions stand where their tokens do -/

theorem Factor.placed_own (t : Factor) :
    (Factor.own env t).1.Placed t.tokens (Factor.own env t).2 := by
  obtain ⟨first, rest, htokens, hloc⟩ := t.exists_first
  exact ⟨List.infix_refl _, first, rest, htokens, t.loc_image.trans hloc.symm, trivial⟩

theorem Unary.placed_own (t : Unary) : (Unary.own env t).1.Placed t.tokens (Unary.own env t).2 := by
  obtain ⟨first, rest, htokens, hloc⟩ := t.exists_first
  exact ⟨List.infix_refl _, first, rest, htokens, t.loc_image.trans hloc.symm, trivial⟩

theorem Chain.places_own (t : Expr) : Places t.tokens (Chain.own env t) := by
  obtain ⟨first, rest, htokens, hloc⟩ := t.exists_first
  exact .cons ⟨List.infix_refl _, first, rest, htokens, hloc.symm, trivial⟩
    (.cons ⟨List.infix_refl _, first, rest, htokens, hloc.symm, trivial⟩ .nil)

theorem infix_cons_concat (t : Token) (ts us : List Token) : ts <:+: t :: (ts ++ us) :=
  ⟨[t], us, rfl⟩

mutual

theorem Factor.places_nodes (henv : KeepsNames env) : (t : Factor) →
    Places t.tokens (t.nodes env)
  | .int .. | .char .. | .bool .. | .string .. => .cons (Factor.placed_own _) .nil
  | .paren _ inner _ => by
    have hinner : Places inner.tokens (Chain.own env inner ++ inner.nodes env) :=
      .append (Chain.places_own inner) (inner.places_nodes henv)
    exact .cons (Factor.placed_own _) (hinner.mono (infix_cons_concat ..))
  | .var name span => by
    refine .cons (Factor.placed_own _) (.cons ⟨List.infix_refl _, _, _, rfl, rfl, ?_⟩ .nil)
    exact congrArg Kind.ident (henv name).symm
  | .call callee span _ args _ => by
    refine .cons (Factor.placed_own _) (.cons ⟨⟨[], _, rfl⟩, _, _, rfl, rfl, rfl⟩ ?_)
    refine (args.places_nodes henv).mono ?_
    exact (infix_cons_concat ..).trans (List.suffix_cons _ _).isInfix

theorem Unary.places_nodes (henv : KeepsNames env) : (t : Unary) →
    Places t.tokens (t.nodes env)
  | .signed _ _ operand =>
    .cons (Unary.placed_own _) ((operand.places_nodes henv).mono (List.suffix_cons _ _).isInfix)
  | .marked .. =>
    .cons (Unary.placed_own _) (.cons ⟨List.infix_refl _, _, _, rfl, rfl, trivial⟩
      (.cons ⟨List.infix_refl _, _, _, rfl, rfl, rfl⟩ .nil))
  | .factor factor => .cons (Unary.placed_own _) (factor.places_nodes henv)

theorem Chain.places_nodes (henv : KeepsNames env) {layers : List Layer} : (t : Chain layers) →
    Places t.tokens (t.nodes env)
  | .unary operand => operand.places_nodes henv
  | .layer operand links => by
    obtain ⟨first, rest, htokens, hloc⟩ := operand.exists_first
    exact links.places_nodes henv _ ⟨first, rest, htokens, hloc⟩
      (.cons ⟨List.infix_refl _, first, rest, htokens, hloc.symm, trivial⟩
        (operand.places_nodes henv))

/-- The nodes of a layer, if those of the operands so far are placed in their tokens. -/
theorem Links.places_nodes (henv : KeepsNames env) {layer : Layer} {below : List Layer} :
    (t : Links layer below) → {start : Location} → (left : Value) → {text : List Token} →
    {found : List (Node × List Token)} →
    (∃ first rest, text = first :: rest ∧ first.loc = start) → Places text found →
    Places (text ++ t.tokens) (t.nodes env start left text found)
  | .nil, _, _, text, _, _, hfound => by
    rw [Links.tokens, List.append_nil]
    exact hfound
  | .cons op _ span operand rest, start, left, text, found, hfirst, hfound => by
    obtain ⟨first, more, htext, hloc⟩ := hfirst
    have hgrown : text ++ symbolAt op.symbol span :: operand.tokens =
        first :: (more ++ symbolAt op.symbol span :: operand.tokens) := by
      rw [htext, List.cons_append]
    have hoperand : operand.tokens <:+: text ++ symbolAt op.symbol span :: operand.tokens :=
      ((List.suffix_cons _ _).trans (List.suffix_append _ _)).isInfix
    have hnode : Node.Placed (text ++ symbolAt op.symbol span :: operand.tokens)
        (.value (.binary op left (operand.image env) start))
        (text ++ symbolAt op.symbol span :: operand.tokens) :=
      ⟨List.infix_refl _, first, _, hgrown, hloc.symm, trivial⟩
    have hparts := (hfound.mono (List.prefix_append ..).isInfix).append
      ((operand.places_nodes henv).mono hoperand)
    have hrest := rest.places_nodes henv (.binary op left (operand.image env) start)
      ⟨first, _, hgrown, hloc⟩ (.cons hnode hparts)
    rw [List.append_assoc, List.cons_append] at hrest
    exact hrest

theorem Args.places_nodes (henv : KeepsNames env) : (t : Args) → Places t.tokens (t.nodes env)
  | .none => .nil
  | .some first rest => by
    have hfirst : first.tokens <:+: first.tokens ++ rest.tokens :=
      (List.prefix_append ..).isInfix
    exact ((Chain.places_own first).mono hfirst).append
      (((first.places_nodes henv).mono hfirst).append
        ((rest.places_nodes henv).mono (List.suffix_append ..).isInfix))

theorem MoreArgs.places_nodes (henv : KeepsNames env) : (t : MoreArgs) →
    Places t.tokens (t.nodes env)
  | .nil => .nil
  | .cons comma arg rest => by
    have harg : arg.tokens <:+: symbolAt .comma comma :: (arg.tokens ++ rest.tokens) :=
      infix_cons_concat ..
    have hrest : rest.tokens <:+: symbolAt .comma comma :: (arg.tokens ++ rest.tokens) :=
      ((List.suffix_append ..).trans (List.suffix_cons ..)).isInfix
    exact ((Chain.places_own arg).mono harg).append
      (((arg.places_nodes henv).mono harg).append ((rest.places_nodes henv).mono hrest))

end

end

end Grammar
end Shc
