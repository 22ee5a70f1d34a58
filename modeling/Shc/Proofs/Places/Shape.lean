import Shc.Proofs.GrammarExact
import Shc.Proofs.Nesting
import Shc.Proofs.Places.Statements
import Shc.Proofs.Text.Lines

/-!
# The shape of parsed programs

The types of the syntax tree have room for more than a source can say: an expression can be a
row of assignments, the condition of a loop any factor, a constant any integer, a callee any
function and a name any text.  The parser builds none of these.  A node has only what the
tokens of its text have, and a walk through the derivation shows it for each node.
-/

namespace Shc

open Token (Kind)

/-! ### What a node takes from its text -/

/-- The number that a token stands for in an expression. -/
def Token.Kind.constant? : Kind → Option Int
  | .int value => some value
  | .char value => some value.toNat
  | .bool value => some (if value then 1 else 0)
  | _ => none

/-- The layers of a value are those in the list, the loosest first. -/
inductive Value.Layered : List Layer → Value → Prop where
  | unary (operand : Unary) : Layered [] (.unary operand)
  | leaf {layer : Layer} {below : List Layer} {operand : Value} {loc : Location} :
      Layered below operand → Layered (layer :: below) (.leaf operand loc)
  | binary {op : Operator} {layer : Layer} {below : List Layer} {left right : Value}
      {loc : Location} : op.layer = layer → Layered (layer :: below) left → Layered below right →
      Layered (layer :: below) (.binary op left right loc)

/-- The tokens have the name among them. -/
def Names (text : List Token) (name : String) : Prop :=
  ∃ t ∈ text, t.kind = .ident name

namespace Node

/-- The node has the shape that a parser gives it, and its name or its number is that of a
    token of its text. -/
def Fits : Node → List Token → Prop
  | function f, text => Names text f.name
  | declared v, text => Names text v.name
  | statement (.branch condition _ _ _), _ => ∃ inner loc, condition = .paren inner loc
  | statement (.loop condition _ _), _ => ∃ inner loc, condition = .paren inner loc
  | statement (.assign s _), _ => ∃ target, s.target = some target
  | slot s, _ => s.value.Layered Grammar.allLayers
  | expr e, _ => ∃ value loc, e.slots = [⟨none, value, loc⟩]
  | factor (.const n _), text => ∃ t ∈ text, t.kind.constant? = some n
  | reference r, text => Names text r.name
  | callee f, text =>
    (∃ t ∈ text, t.kind = .ident f.name ∧ t.loc = f.loc) ∧
      f.returns = ⟨.void, 0⟩ ∧ f.params = [] ∧ f.locals = [] ∧ f.body = []
  | _, _ => True

end Node

/-- All the nodes fit their texts. -/
def AllFit (nodes : List (Node × List Token)) : Prop :=
  ∀ n ∈ nodes, n.1.Fits n.2

namespace AllFit

variable {nodes more : List (Node × List Token)}

theorem nil : AllFit [] := by
  intro n hn
  cases hn

theorem cons {node : Node} {text : List Token} (h : node.Fits text) (hmore : AllFit more) :
    AllFit ((node, text) :: more) := by
  intro n hn
  rcases List.mem_cons.1 hn with rfl | hn
  · exact h
  · exact hmore n hn

theorem append (h : AllFit nodes) (hmore : AllFit more) : AllFit (nodes ++ more) := by
  intro n hn
  rcases List.mem_append.1 hn with hn | hn
  · exact h n hn
  · exact hmore n hn

end AllFit

/-! ### Walking through a derivation -/

namespace Grammar

section

variable {env : String → Variable}

mutual

theorem Chain.layered_image {layers : List Layer} : (t : Chain layers) →
    (t.image env).Layered layers
  | .unary operand => .unary _
  | .layer first rest => rest.layered_image (.leaf first.layered_image)

theorem Links.layered_image {layer : Layer} {below : List Layer} : (t : Links layer below) →
    {start : Location} → {left : Value} → left.Layered (layer :: below) →
    (t.image env start left).Layered (layer :: below)
  | .nil, _, _, hleft => hleft
  | .cons _ belongs _ operand rest, _, _, hleft =>
    rest.layered_image (.binary (mem_operators.1 belongs) hleft operand.layered_image)

end

theorem Chain.fits_own (t : Expr) : AllFit (Chain.own env t) :=
  .cons ⟨_, _, rfl⟩ (.cons t.layered_image .nil)

theorem fits_callee (name : String) (span : Span) :
    (Node.callee (namedOnly name span.start)).Fits [nameAt name span] :=
  ⟨⟨_, List.mem_singleton_self _, rfl, rfl⟩, rfl, rfl, rfl, rfl⟩

mutual

theorem Factor.fits (henv : KeepsNames env) : (t : Factor) → AllFit (t.nodes env)
  | .int .. | .char .. | .bool .. => .cons ⟨_, List.mem_singleton_self _, rfl⟩ .nil
  | .string .. => .cons trivial .nil
  | .paren _ inner _ => .cons trivial ((Chain.fits_own inner).append (inner.fits henv))
  | .var name _ =>
    .cons trivial (.cons ⟨_, List.mem_singleton_self _, congrArg Kind.ident (henv name).symm⟩ .nil)
  | .call _ _ _ args _ =>
    .cons trivial (.cons (fits_callee ..) (args.fits henv))

theorem Unary.fits (henv : KeepsNames env) : (t : Unary) → AllFit (t.nodes env)
  | .signed _ _ operand => .cons trivial (operand.fits henv)
  | .marked first more name span => by
    have hname : nameAt name span ∈ (Unary.marked first more name span).tokens := by
      simp [Unary.tokens]
    exact .cons trivial (.cons trivial
      (.cons ⟨_, hname, congrArg Kind.ident (henv name).symm⟩ .nil))
  | .factor factor => .cons trivial (factor.fits henv)

theorem Chain.fits (henv : KeepsNames env) {layers : List Layer} : (t : Chain layers) →
    AllFit (t.nodes env)
  | .unary operand => operand.fits henv
  | .layer first rest => rest.fits henv (.cons trivial (first.fits henv))

theorem Links.fits (henv : KeepsNames env) {layer : Layer} {below : List Layer} :
    (t : Links layer below) → {start : Location} → {left : Value} → {text : List Token} →
    {found : List (Node × List Token)} → AllFit found → AllFit (t.nodes env start left text found)
  | .nil, _, _, _, _, hfound => hfound
  | .cons _ _ _ operand rest, _, _, _, _, hfound =>
    rest.fits henv (.cons trivial (hfound.append (operand.fits henv)))

theorem Args.fits (henv : KeepsNames env) : (t : Args) → AllFit (t.nodes env)
  | .none => .nil
  | .some first rest =>
    (Chain.fits_own first).append ((first.fits henv).append (rest.fits henv))

theorem MoreArgs.fits (henv : KeepsNames env) : (t : MoreArgs) → AllFit (t.nodes env)
  | .nil => .nil
  | .cons _ arg rest => (Chain.fits_own arg).append ((arg.fits henv).append (rest.fits henv))

end

theorem Condition.fits (henv : KeepsNames env) (t : Condition) : AllFit (t.nodes env) :=
  .cons trivial ((Chain.fits_own t.inner).append (t.inner.fits henv))

theorem Declaration.fits_node (t : Declaration) : t.node.1.Fits t.node.2 :=
  ⟨_, List.mem_cons_self, rfl⟩

mutual

theorem Statement.fits (henv : KeepsNames env) : (t : Statement) → AllFit (t.nodes env)
  | .block _ inner _ => inner.fits henv
  | .branch _ condition yes => .cons ⟨_, _, rfl⟩ ((condition.fits henv).append (yes.fits henv))
  | .branchElse _ condition yes _ no =>
    .cons ⟨_, _, rfl⟩ ((condition.fits henv).append ((yes.fits henv).append (no.fits henv)))
  | .loop _ condition body => .cons ⟨_, _, rfl⟩ ((condition.fits henv).append (body.fits henv))
  | .brk .. | .cont .. => .cons trivial .nil
  | .ret _ value _ => by
    refine .cons trivial ?_
    cases value with
    | none => exact .nil
    | some e => exact (Chain.fits_own e).append (e.fits henv)
  | .declare declaration => .cons trivial (.cons declaration.fits_node .nil)
  | .call _ _ _ args _ _ =>
    .cons trivial (.cons (fits_callee ..) (args.fits henv))
  | .assign markers name span _ value _ => by
    have hname : nameAt name span ∈ markers.map (symbolAt .caret) ++ [nameAt name span] :=
      List.mem_append_right _ (List.mem_singleton_self _)
    exact .cons ⟨_, rfl⟩ (.cons value.layered_image
      (.cons ⟨_, hname, congrArg Kind.ident (henv name).symm⟩ (value.fits henv)))
  | .empty _ => .nil

theorem Body.fits (henv : KeepsNames env) : (t : Body) → AllFit (t.nodes env)
  | .block _ inner _ => inner.fits henv
  | .single statement => statement.fits henv

theorem Statements.fits (henv : KeepsNames env) : (t : Statements) → AllFit (t.nodes env)
  | .nil => .nil
  | .cons first rest => (first.fits henv).append (rest.fits henv)

end

end

theorem Param.fits_node (t : Param) : t.node.1.Fits t.node.2 :=
  ⟨_, List.mem_cons_self, rfl⟩

theorem Params.fits (t : Params) : AllFit t.nodes := by
  cases t with
  | none => exact .nil
  | some first rest =>
    refine .cons first.fits_node fun n hn => ?_
    obtain ⟨param, -, rfl⟩ := List.mem_map.1 hn
    exact param.2.fits_node

theorem Function.fits (t : Function) : AllFit t.nodes := by
  have hdeclarations : AllFit (t.body.declarations.map Declaration.node) := by
    intro n hn
    obtain ⟨d, -, rfl⟩ := List.mem_map.1 hn
    exact d.fits_node
  have hname : nameAt t.name t.span ∈ t.tokens := List.mem_cons_of_mem _ List.mem_cons_self
  exact .cons ⟨_, hname, rfl⟩
    (t.params.fits.append (hdeclarations.append (t.body.fits t.name_env)))

/-- Every node of a program fits its text. -/
theorem Program.fits (t : Program) : AllFit (Program.nodes t) := by
  intro n hn
  obtain ⟨item, -, hn⟩ := List.mem_flatMap.1 hn
  cases item with
  | function f => exact f.fits n hn
  | declaration d =>
    rw [List.mem_singleton.1 hn]
    exact d.fits_node

end Grammar

/-! ### Names and numbers of the lexer -/

/-- A name that is an identifier among the tokens, and that the lexer reads as this one
    identifier where it stands alone. -/
structure Identifier (ts : List Token) (name : String) : Prop where
  occurs : Names ts name
  alone : (Source.ofString name).tokens.map Token.kind = [.ident name, .eos]

theorem Lexeme.IsName.tokens_eq {name : String} (h : IsName name) :
    (Source.ofString name).tokens.map Token.kind = [.ident name, .eos] := by
  have hreads : Reads name.toList [.ident name] := by
    simpa using spells_name h [] [] headIn_nil .nil
  obtain ⟨c, tail, hname, -, -, -⟩ := h.isWord
  have hlines : Text.lines name.toList = [name.toList] := by
    have hprepend := Text.linesBy_prepend (fun c hc => hreads.inLine c hc)
      (by rw [hname]; exact List.cons_ne_nil c tail) []
    simpa [Text.lines, Text.linesBy] using hprepend
  rw [Source.tokens, Source.ofString, Source.ofChars, hlines]
  exact Cursor.kinds_of_readsLines (.cons hreads .nil) 0 0

theorem Identifier.of_names {ts text : List Token} {name : String} (h : Names text name)
    (hwithin : text <:+: ts) (hlexical : Token.AllLexical ts) : Identifier ts name := by
  obtain ⟨t, ht, hkind⟩ := h
  have hname := hlexical t (hwithin.subset ht)
  rw [hkind] at hname
  exact ⟨⟨t, hwithin.subset ht, hkind⟩, hname.tokens_eq⟩

theorem Token.Kind.Lexical.constant_bounds {kind : Kind} (h : kind.Lexical) {value : Int}
    (hvalue : kind.constant? = some value) : 0 ≤ value ∧ value ≤ 2147483647 := by
  cases kind with
  | int n =>
    obtain rfl := Option.some.inj hvalue
    have hle : n ≤ 2147483647 := h
    omega
  | char c =>
    obtain rfl := Option.some.inj hvalue
    have hle : c.toNat ≤ 1114111 := by
      rcases c.valid with hlow | ⟨-, hhigh⟩
      · exact Nat.le_of_lt (Nat.lt_trans hlow (by decide))
      · exact Nat.le_of_lt_succ hhigh
    omega
  | bool b =>
    obtain rfl := Option.some.inj hvalue
    cases b <;> decide
  | _ => cases hvalue

/-! ### Parsed programs -/

/-- The shape of a program that is read from the tokens `ts`. -/
structure Program.Shaped (ts : List Token) (p : Program) : Prop where
  expr : ∀ e, .expr e ∈ p.nodes → ∃ value loc, e.slots = [⟨none, value, loc⟩]
  slot : ∀ s, .slot s ∈ p.nodes → s.value.Layered Grammar.allLayers
  assign : ∀ slot loc, .statement (.assign slot loc) ∈ p.nodes → ∃ target, slot.target = some target
  branch : ∀ condition yes no loc, .statement (.branch condition yes no loc) ∈ p.nodes →
    ∃ inner start, condition = .paren inner start
  loop : ∀ condition body loc, .statement (.loop condition body loc) ∈ p.nodes →
    ∃ inner start, condition = .paren inner start
  const : ∀ value loc, .factor (.const value loc) ∈ p.nodes → 0 ≤ value ∧ value ≤ 2147483647
  function : ∀ f ∈ p.functions, Identifier ts f.name
  declared : ∀ v, .declared v ∈ p.nodes → Identifier ts v.name
  reference : ∀ r, .reference r ∈ p.nodes → Identifier ts r.name
  callee : ∀ f, .callee f ∈ p.nodes →
    Identifier ts f.name ∧ (∃ t ∈ ts, t.kind = .ident f.name ∧ t.loc = f.loc) ∧
      f.returns = ⟨.void, 0⟩ ∧ f.params = [] ∧ f.locals = [] ∧ f.body = []
  nesting : ∀ f ∈ p.functions, Within 64 (Statement.allPaths f.body)

/-- A node fits some part of the tokens. -/
theorem Grammar.Program.exists_fits {tree : Grammar.Program} {node : Node}
    (h : node ∈ tree.image.nodes) : ∃ text, text <:+: tree.tokens ∧ node.Fits text := by
  obtain ⟨⟨node', text⟩, hmem, rfl⟩ := List.mem_map.1 (tree.perm_map_fst_nodes.mem_iff.2 h)
  exact ⟨text, (tree.places_nodes _ hmem).within, tree.fits _ hmem⟩

/-- Whatever source is accepted, the program has the shape that the rest relies on: all
    expressions are single values with all layers, all assignments have a target and all
    conditions are parenthesised, numbers and names are those of the lexer, nothing is known of
    a callee but its name, and no more than 64 constructs are open at once. -/
theorem Program.shaped_of_parse (source : Source) (p : Program) (h : parse source = .ok p) :
    p.Shaped source.tokens := by
  obtain ⟨tree, span, htokens, hvalid, rfl⟩ := exists_derivation h
  have hlexical : Token.AllLexical source.tokens :=
    Token.allLexical_of_source (List.append_nil _).symm
  have hwithin : ∀ {text : List Token}, text <:+: tree.tokens → text <:+: source.tokens := by
    intro text htext
    rw [htokens]
    exact htext.trans (List.prefix_append ..).isInfix
  have hname : ∀ {text : List Token} {name : String}, Names text name → text <:+: tree.tokens →
      Identifier source.tokens name :=
    fun hnames htext => .of_names hnames (hwithin htext) hlexical
  refine ⟨fun e he => ?_, fun s hs => ?_, fun slot loc hslot => ?_,
    fun condition yes no loc hbranch => ?_, fun condition body loc hloop => ?_,
    fun value loc hconst => ?_, fun f hf => ?_, fun v hv => ?_, fun r hr => ?_, fun f hf => ?_,
    fun f hf => ?_⟩
  · obtain ⟨text, -, hfits⟩ := Grammar.Program.exists_fits he
    exact hfits
  · obtain ⟨text, -, hfits⟩ := Grammar.Program.exists_fits hs
    exact hfits
  · obtain ⟨text, -, hfits⟩ := Grammar.Program.exists_fits hslot
    exact hfits
  · obtain ⟨text, -, hfits⟩ := Grammar.Program.exists_fits hbranch
    exact hfits
  · obtain ⟨text, -, hfits⟩ := Grammar.Program.exists_fits hloop
    exact hfits
  · obtain ⟨text, htext, t, ht, hkind⟩ := Grammar.Program.exists_fits hconst
    exact (hlexical t ((hwithin htext).subset ht)).constant_bounds hkind
  · have hnode : .function f ∈ tree.image.nodes :=
      List.mem_append_right _ (List.mem_flatMap.2 ⟨f, hf, List.mem_cons_self⟩)
    obtain ⟨text, htext, hfits⟩ := Grammar.Program.exists_fits hnode
    exact hname hfits htext
  · obtain ⟨text, htext, hfits⟩ := Grammar.Program.exists_fits hv
    exact hname hfits htext
  · obtain ⟨text, htext, hfits⟩ := Grammar.Program.exists_fits hr
    exact hname hfits htext
  · obtain ⟨text, htext, ⟨t, ht, hkind, hloc⟩, hempty⟩ := Grammar.Program.exists_fits hf
    exact ⟨hname ⟨t, ht, hkind⟩ htext, ⟨t, (hwithin htext).subset ht, hkind, hloc⟩, hempty⟩
  · obtain ⟨g, hg, rfl⟩ := Grammar.exists_of_mem_functions hf
    obtain ⟨-, -, -, hdepth⟩ := hvalid _ hg
    exact g.body.within.mono hdepth

/-- The sample has a call, signs and an assignment in a block. -/
theorem Program.shaped_of_parse_sample :
    parse Sample.source = .ok ⟨[], [Sample.f]⟩ ∧
      Shaped Sample.source.tokens ⟨[], [Sample.f]⟩ :=
  ⟨Sample.parse_source, shaped_of_parse _ _ Sample.parse_source⟩

end Shc
