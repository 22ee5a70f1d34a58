import Shc.Proofs.Places.Nodes
import Shc.Proofs.ScopeSound

/-!
# The text of statements and functions

The walks of `Nodes` through statements, functions and programs.  A block is no node, and
its statements are met where it stands.  The locals of a function are met with it and then
again where they are declared, each time with the text of the declaration.
-/

namespace Shc.Grammar

open Token (Kind)

/-! ### Nodes of a derivation -/

def Param.node (p : Param) : Node × List Token :=
  (.declared p.image, p.tokens)

def Params.nodes : Params → List (Node × List Token)
  | .none => []
  | .some first rest => first.node :: rest.map fun param => param.2.node

def Declaration.node (d : Declaration) : Node × List Token :=
  (.declared d.image, d.tokens)

mutual

/-- The declarations in a statement. -/
def Statement.declarations : Statement → List Declaration
  | .block _ inner _ => inner.declarations
  | .branch _ _ yes => yes.declarations
  | .branchElse _ _ yes _ no => yes.declarations ++ no.declarations
  | .loop _ _ body => body.declarations
  | .declare declaration => [declaration]
  | _ => []

def Body.declarations : Body → List Declaration
  | .block _ inner _ => inner.declarations
  | .single statement => statement.declarations

def Statements.declarations : Statements → List Declaration
  | .nil => []
  | .cons first rest => first.declarations ++ rest.declarations

end

section

variable (env : String → Variable)

def Condition.nodes (c : Condition) : List (Node × List Token) :=
  (.factor (c.image env), c.tokens) :: (Chain.own env c.inner ++ c.inner.nodes env)

/-- The target of an assignment. -/
def target (markers : List Span) (name : String) (span : Span) : Reference :=
  ⟨env name, markers.length, (markers.head?.getD span).start⟩

mutual

/-- The nodes of a statement with their tokens. -/
def Statement.nodes : Statement → List (Node × List Token)
  | .block _ inner _ => inner.nodes
  | .branch word condition yes =>
    (.statement (.branch (condition.image env) (yes.image env) [] word.start),
      (Statement.branch word condition yes).tokens) :: (condition.nodes env ++ yes.nodes)
  | .branchElse word condition yes elseWord no =>
    (.statement (.branch (condition.image env) (yes.image env) (no.image env) word.start),
      (Statement.branchElse word condition yes elseWord no).tokens) ::
      (condition.nodes env ++ (yes.nodes ++ no.nodes))
  | .loop word condition body =>
    (.statement (.loop (condition.image env) (body.image env) word.start),
      (Statement.loop word condition body).tokens) :: (condition.nodes env ++ body.nodes)
  | .brk word semicolon =>
    [(.statement (.brk word.start), (Statement.brk word semicolon).tokens)]
  | .cont word semicolon =>
    [(.statement (.cont word.start), (Statement.cont word semicolon).tokens)]
  | .ret word value semicolon =>
    (.statement (.ret (value.map (Chain.expr env)) word.start),
      (Statement.ret word value semicolon).tokens) ::
      value.elim [] fun e => Chain.own env e ++ e.nodes env
  | .declare declaration =>
    [(.statement (.declare declaration.image declaration.span.start), declaration.tokens),
      declaration.node]
  | .call callee span opening args closing semicolon =>
    (.statement (.call (namedOnly callee span.start) (args.image env) span.start),
      (Statement.call callee span opening args closing semicolon).tokens) ::
      (.callee (namedOnly callee span.start), [nameAt callee span]) :: args.nodes env
  | .assign markers name span eq value semicolon =>
    let target := target env markers name span
    (.statement (.assign ⟨some target, value.image env, target.loc⟩ target.loc),
      (Statement.assign markers name span eq value semicolon).tokens) ::
      (.slot ⟨some target, value.image env, target.loc⟩,
        markers.map (symbolAt .caret) ++ nameAt name span :: symbolAt .eq eq :: value.tokens) ::
      (.reference target,
        markers.map (symbolAt .caret) ++ [nameAt name span]) :: value.nodes env
  | .empty _ => []

def Body.nodes : Body → List (Node × List Token)
  | .block _ inner _ => inner.nodes
  | .single statement => statement.nodes

def Statements.nodes : Statements → List (Node × List Token)
  | .nil => []
  | .cons first rest => first.nodes ++ rest.nodes

end

end

def Function.nodes (f : Function) : List (Node × List Token) :=
  (.function f.image, f.tokens) ::
    (f.params.nodes ++ (f.body.declarations.map Declaration.node ++ f.body.nodes f.env))

def Item.nodes : Item → List (Node × List Token)
  | function f => f.nodes
  | declaration d => [d.node]

def Program.nodes (p : Program) : List (Node × List Token) :=
  p.flatMap Item.nodes

/-! ### Both walks meet the same nodes -/

mutual

theorem Statement.declared_mentions : (t : Statement) →
    Mention.declared t.mentions = t.declarations.map Declaration.image
  | .block _ inner _ => inner.declared_mentions
  | .branch _ _ yes => by
    simp [Statement.mentions, Statement.declarations, yes.declared_mentions]
  | .branchElse _ _ yes _ no => by
    simp [Statement.mentions, Statement.declarations, yes.declared_mentions, no.declared_mentions]
  | .loop _ _ body => by
    simp [Statement.mentions, Statement.declarations, body.declared_mentions]
  | .brk .. | .cont .. | .empty .. => rfl
  | .ret .. => by simp [Statement.mentions, Statement.declarations]
  | .declare .. => by simp [Statement.mentions, Statement.declarations, Mention.declared]
  | .call .. => by simp [Statement.mentions, Statement.declarations]
  | .assign .. => by simp [Statement.mentions, Statement.declarations, Mention.declared]

theorem Body.declared_mentions : (t : Body) →
    Mention.declared t.mentions = t.declarations.map Declaration.image
  | .block _ inner _ => inner.declared_mentions
  | .single statement => statement.declared_mentions

theorem Statements.declared_mentions : (t : Statements) →
    Mention.declared t.mentions = t.declarations.map Declaration.image
  | .nil => rfl
  | .cons first rest => by
    simp [Statements.mentions, Statements.declarations, first.declared_mentions,
      rest.declared_mentions]

end

section

variable {env : String → Variable}

theorem Condition.map_fst_nodes (c : Condition) :
    (c.nodes env).map Prod.fst = (c.image env).nodes := by
  simp [Condition.nodes, Chain.own, Chain.expr, Condition.image, Shc.Factor.nodes,
    Expr.nodes_plainExpr, c.inner.map_fst_nodes]

mutual

theorem Statement.map_fst_nodes : (t : Statement) →
    (t.nodes env).map Prod.fst = Statement.allNodes (t.image env)
  | .block _ inner _ => inner.map_fst_nodes
  | .branch _ condition yes => by
    simp [Statement.nodes, Statement.image, Shc.Statement.allNodes, Shc.Statement.nodes,
      condition.map_fst_nodes, yes.map_fst_nodes]
  | .branchElse _ condition yes _ no => by
    simp [Statement.nodes, Statement.image, Shc.Statement.allNodes, Shc.Statement.nodes,
      condition.map_fst_nodes, yes.map_fst_nodes, no.map_fst_nodes]
  | .loop _ condition body => by
    simp [Statement.nodes, Statement.image, Shc.Statement.allNodes, Shc.Statement.nodes,
      condition.map_fst_nodes, body.map_fst_nodes]
  | .brk .. | .cont .. | .declare .. | .empty .. => rfl
  | .ret _ value _ => by
    cases value with
    | none => rfl
    | some e =>
      simp [Statement.nodes, Statement.image, Shc.Statement.allNodes, Shc.Statement.nodes,
        Chain.own, Chain.expr, Expr.nodes_plainExpr, e.map_fst_nodes]
  | .call _ _ _ args _ _ => by
    simp [Statement.nodes, Statement.image, Shc.Statement.allNodes, Shc.Statement.nodes,
      args.map_fst_nodes]
  | .assign _ _ _ _ value _ => by
    simp [Statement.nodes, Statement.image, Shc.Statement.allNodes, Shc.Statement.nodes,
      Slot.nodes, target, value.map_fst_nodes]

theorem Body.map_fst_nodes : (t : Body) →
    (t.nodes env).map Prod.fst = Statement.allNodes (t.image env)
  | .block _ inner _ => inner.map_fst_nodes
  | .single statement => statement.map_fst_nodes

theorem Statements.map_fst_nodes : (t : Statements) →
    (t.nodes env).map Prod.fst = Statement.allNodes (t.image env)
  | .nil => rfl
  | .cons first rest => by
    rw [Statements.nodes, Statements.image, List.map_append, first.map_fst_nodes,
      rest.map_fst_nodes, Shc.Statement.allNodes_append]

end

end

theorem Params.map_fst_nodes (t : Params) : t.nodes.map Prod.fst = t.image.map .declared := by
  cases t with
  | none => rfl
  | some first rest => simp [Params.nodes, Params.image, Param.node, Function.comp_def]

theorem Function.map_fst_nodes (t : Function) : t.nodes.map Prod.fst = t.image.nodes := by
  have hlocals : (t.body.declarations.map Declaration.node).map Prod.fst =
      t.locals.map .declared := by
    rw [locals, t.body.declared_mentions]
    simp [Declaration.node, Function.comp_def]
  rw [Function.nodes, List.map_cons, List.map_append, List.map_append, t.params.map_fst_nodes,
    hlocals, t.body.map_fst_nodes]
  rfl

/-- A program has its globals in front of its functions, whatever their order in the source. -/
theorem Program.perm_map_fst_nodes (t : Program) :
    (Program.nodes t).map Prod.fst |>.Perm (Program.image t).nodes := by
  induction t with
  | nil => exact .refl _
  | cons item t ih =>
    cases item with
    | declaration d => exact ih.cons _
    | function f =>
      have hcons : (Program.image (.function f :: t)).nodes =
          (Program.image t).globals.map .declared ++
            (f.image.nodes ++ (Program.image t).functions.flatMap Shc.Function.nodes) := rfl
      have hnodes : Program.nodes (.function f :: t) = f.nodes ++ Program.nodes t := rfl
      rw [hcons, hnodes, List.map_append, f.map_fst_nodes]
      refine (ih.append_left _).trans ?_
      exact List.perm_append_comm_assoc ..

/-! ### Statements stand where their tokens do -/

theorem Declaration.placed_node (d : Declaration) : d.node.1.Placed d.tokens d.node.2 :=
  ⟨List.infix_refl _, _, _, rfl, rfl, rfl⟩

theorem Param.placed_node (p : Param) : p.node.1.Placed p.tokens p.node.2 :=
  ⟨List.infix_refl _, _, _, rfl, rfl, rfl⟩

theorem Statement.infix_branch (word : Span) (condition : Condition) (yes : Body) :
    condition.tokens <:+: (Statement.branch word condition yes).tokens ∧
      yes.tokens <:+: (Statement.branch word condition yes).tokens :=
  ⟨infix_cons_concat .., ((List.suffix_append ..).trans (List.suffix_cons ..)).isInfix⟩

theorem Statement.infix_branchElse (word : Span) (condition : Condition) (yes : Body)
    (elseWord : Span) (no : Body) :
    condition.tokens <:+: (Statement.branchElse word condition yes elseWord no).tokens ∧
      yes.tokens <:+: (Statement.branchElse word condition yes elseWord no).tokens ∧
      no.tokens <:+: (Statement.branchElse word condition yes elseWord no).tokens := by
  refine ⟨infix_cons_concat .., ?_, ?_⟩
  · refine ⟨wordAt .ifKw word :: condition.tokens, wordAt .elseKw elseWord :: no.tokens, ?_⟩
    simp [Statement.tokens]
  · refine ⟨wordAt .ifKw word :: (condition.tokens ++ (yes.tokens ++ [wordAt .elseKw elseWord])),
      [], ?_⟩
    simp [Statement.tokens]

theorem Statement.infix_loop (word : Span) (condition : Condition) (body : Body) :
    condition.tokens <:+: (Statement.loop word condition body).tokens ∧
      body.tokens <:+: (Statement.loop word condition body).tokens :=
  ⟨infix_cons_concat .., ((List.suffix_append ..).trans (List.suffix_cons ..)).isInfix⟩

theorem Statement.infix_assign (markers : List Span) (name : String) (span eq : Span)
    (value : Expr) (semicolon : Span) :
    markers.map (symbolAt .caret) ++ nameAt name span :: symbolAt .eq eq :: value.tokens <:+:
        (Statement.assign markers name span eq value semicolon).tokens ∧
      markers.map (symbolAt .caret) ++ [nameAt name span] <:+:
        (Statement.assign markers name span eq value semicolon).tokens ∧
      value.tokens <:+: (Statement.assign markers name span eq value semicolon).tokens := by
  refine ⟨⟨[], [symbolAt .semicolon semicolon], ?_⟩,
    ⟨[], symbolAt .eq eq :: (value.tokens ++ [symbolAt .semicolon semicolon]), ?_⟩,
    ⟨markers.map (symbolAt .caret) ++ [nameAt name span, symbolAt .eq eq],
      [symbolAt .semicolon semicolon], ?_⟩⟩
  all_goals simp [Statement.tokens]

mutual

theorem Statement.infix_declarations : (t : Statement) →
    ∀ d ∈ t.declarations, d.tokens <:+: t.tokens
  | .block _ inner _, d, hd => (inner.infix_declarations d hd).trans (infix_cons_concat ..)
  | .branch word condition yes, d, hd =>
    (yes.infix_declarations d hd).trans (Statement.infix_branch word condition yes).2
  | .branchElse word condition yes elseWord no, d, hd => by
    obtain ⟨-, hyes, hno⟩ := Statement.infix_branchElse word condition yes elseWord no
    rcases List.mem_append.1 hd with hd | hd
    · exact (yes.infix_declarations d hd).trans hyes
    · exact (no.infix_declarations d hd).trans hno
  | .loop word condition body, d, hd =>
    (body.infix_declarations d hd).trans (Statement.infix_loop word condition body).2
  | .declare declaration, d, hd => by
    rw [List.mem_singleton.1 hd]
    exact List.infix_refl _

theorem Body.infix_declarations : (t : Body) → ∀ d ∈ t.declarations, d.tokens <:+: t.tokens
  | .block _ inner _, d, hd => (inner.infix_declarations d hd).trans (infix_cons_concat ..)
  | .single statement, d, hd => statement.infix_declarations d hd

theorem Statements.infix_declarations : (t : Statements) →
    ∀ d ∈ t.declarations, d.tokens <:+: t.tokens
  | .cons first rest, d, hd => by
    rcases List.mem_append.1 hd with hd | hd
    · exact (first.infix_declarations d hd).trans (List.prefix_append ..).isInfix
    · exact (rest.infix_declarations d hd).trans (List.suffix_append ..).isInfix

end

section

variable {env : String → Variable}

theorem Condition.places_nodes (henv : KeepsNames env) (c : Condition) :
    Places c.tokens (c.nodes env) := by
  have hinner : Places c.inner.tokens (Chain.own env c.inner ++ c.inner.nodes env) :=
    .append (Chain.places_own c.inner) (c.inner.places_nodes henv)
  exact .cons ⟨List.infix_refl _, _, _, rfl, rfl, trivial⟩ (hinner.mono (infix_cons_concat ..))

/-- The first token of an assignment is its first marker, or the name. -/
theorem exists_first_target (henv : KeepsNames env) (markers : List Span) (name : String)
    (span : Span) (more : List Token) :
    ∃ first rest, markers.map (symbolAt .caret) ++ nameAt name span :: more = first :: rest ∧
      (target env markers name span).loc = first.loc ∧
      (Node.reference (target env markers name span)).Leads first.kind := by
  cases markers with
  | nil => exact ⟨_, _, rfl, rfl, congrArg Kind.ident (henv name).symm⟩
  | cons first markers => exact ⟨_, _, rfl, rfl, rfl⟩

mutual

theorem Statement.places_nodes (henv : KeepsNames env) : (t : Statement) →
    Places t.tokens (t.nodes env)
  | .block _ inner _ => (inner.places_nodes henv).mono (infix_cons_concat ..)
  | .branch word condition yes => by
    obtain ⟨hcondition, hyes⟩ := Statement.infix_branch word condition yes
    exact .cons ⟨List.infix_refl _, _, _, rfl, rfl, trivial⟩
      (((condition.places_nodes henv).mono hcondition).append ((yes.places_nodes henv).mono hyes))
  | .branchElse word condition yes elseWord no => by
    obtain ⟨hcondition, hyes, hno⟩ := Statement.infix_branchElse word condition yes elseWord no
    exact .cons ⟨List.infix_refl _, _, _, rfl, rfl, trivial⟩
      (((condition.places_nodes henv).mono hcondition).append
        (((yes.places_nodes henv).mono hyes).append ((no.places_nodes henv).mono hno)))
  | .loop word condition body => by
    obtain ⟨hcondition, hbody⟩ := Statement.infix_loop word condition body
    exact .cons ⟨List.infix_refl _, _, _, rfl, rfl, trivial⟩
      (((condition.places_nodes henv).mono hcondition).append ((body.places_nodes henv).mono hbody))
  | .brk .. | .cont .. => .cons ⟨List.infix_refl _, _, _, rfl, rfl, trivial⟩ .nil
  | .ret word value semicolon => by
    refine .cons ⟨List.infix_refl _, _, _, rfl, rfl, trivial⟩ ?_
    cases value with
    | none => exact .nil
    | some e =>
      have hvalue : Places e.tokens (Chain.own env e ++ e.nodes env) :=
        .append (Chain.places_own e) (e.places_nodes henv)
      exact hvalue.mono (infix_cons_concat ..)
  | .declare declaration =>
    .cons ⟨List.infix_refl _, _, _, rfl, rfl, trivial⟩ (.cons declaration.placed_node .nil)
  | .call _ _ _ args _ _ => by
    refine .cons ⟨List.infix_refl _, _, _, rfl, rfl, trivial⟩
      (.cons ⟨⟨[], _, rfl⟩, _, _, rfl, rfl, rfl⟩ ?_)
    exact (args.places_nodes henv).mono
      ((infix_cons_concat ..).trans (List.suffix_cons ..).isInfix)
  | .assign markers name span eq value semicolon => by
    have hfirst := exists_first_target henv markers name span
    obtain ⟨hslot, htarget, hvalue⟩ :=
      Statement.infix_assign markers name span eq value semicolon
    obtain ⟨first, rest, htext, hloc, -⟩ := hfirst (symbolAt .eq eq ::
      (value.tokens ++ [symbolAt .semicolon semicolon]))
    obtain ⟨first', rest', htext', hloc', -⟩ := hfirst (symbolAt .eq eq :: value.tokens)
    refine .cons ⟨List.infix_refl _, first, rest, htext, hloc, trivial⟩ (.cons ?_ (.cons ?_ ?_))
    · exact ⟨hslot, first', rest', htext', hloc', trivial⟩
    · exact ⟨htarget, hfirst []⟩
    · exact (value.places_nodes henv).mono hvalue
  | .empty _ => .nil

theorem Body.places_nodes (henv : KeepsNames env) : (t : Body) → Places t.tokens (t.nodes env)
  | .block _ inner _ => (inner.places_nodes henv).mono (infix_cons_concat ..)
  | .single statement => statement.places_nodes henv

theorem Statements.places_nodes (henv : KeepsNames env) : (t : Statements) →
    Places t.tokens (t.nodes env)
  | .nil => .nil
  | .cons first rest =>
    ((first.places_nodes henv).mono (List.prefix_append ..).isInfix).append
      ((rest.places_nodes henv).mono (List.suffix_append ..).isInfix)

end

end

theorem Params.infix_moreTokens {rest : List (Span × Param)} {param : Span × Param}
    (h : param ∈ rest) : param.2.tokens <:+: moreTokens rest := by
  induction rest with
  | nil => cases h
  | cons next rest ih =>
    obtain ⟨comma, p⟩ := next
    rw [moreTokens]
    rcases List.mem_cons.1 h with rfl | h
    · exact infix_cons_concat ..
    · exact (ih h).trans ((List.suffix_append ..).trans (List.suffix_cons ..)).isInfix

theorem Params.places_nodes (t : Params) : Places t.tokens t.nodes := by
  cases t with
  | none => exact .nil
  | some first rest =>
    intro n hn
    rcases List.mem_cons.1 hn with rfl | hn
    · exact ⟨(List.prefix_append ..).isInfix, first.placed_node.starts⟩
    · obtain ⟨param, hparam, rfl⟩ := List.mem_map.1 hn
      exact ⟨(infix_moreTokens hparam).trans (List.suffix_append ..).isInfix,
        param.2.placed_node.starts⟩

theorem Function.places_nodes (t : Function) : Places t.tokens t.nodes := by
  have hparams : t.params.tokens <:+: t.tokens :=
    ⟨[wordAt .funKw t.word, nameAt t.name t.span, symbolAt .lparen t.opening], _, rfl⟩
  have hbody : t.body.tokens <:+: t.tokens := by
    refine ⟨wordAt .funKw t.word :: nameAt t.name t.span :: symbolAt .lparen t.opening ::
      (t.params.tokens ++ symbolAt .rparen t.closing :: symbolAt .colon t.colon ::
        (t.returns.tokens ++ [symbolAt .lbrace t.lbrace])), [symbolAt .rbrace t.rbrace], ?_⟩
    simp [Function.tokens]
  refine .cons ⟨List.infix_refl _, _, _, rfl, rfl, rfl⟩ (.append ?_ (.append ?_ ?_))
  · exact t.params.places_nodes.mono hparams
  · intro n hn
    obtain ⟨d, hd, rfl⟩ := List.mem_map.1 hn
    exact ⟨(t.body.infix_declarations d hd).trans hbody, d.placed_node.starts⟩
  · exact (t.body.places_nodes t.name_env).mono hbody

/-- Every node of a program stands at the first of its tokens. -/
theorem Program.places_nodes (t : Program) : Places (Program.tokens t) (Program.nodes t) := by
  induction t with
  | nil => exact .nil
  | cons item t ih =>
    refine .append ?_ (ih.mono (List.suffix_append ..).isInfix)
    cases item with
    | function f => exact f.places_nodes.mono (List.prefix_append ..).isInfix
    | declaration d =>
      have hnode : Places d.tokens [d.node] := .cons d.placed_node .nil
      exact hnode.mono (List.prefix_append ..).isInfix

end Shc.Grammar
