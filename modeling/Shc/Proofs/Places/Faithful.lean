import Shc.Proofs.C.BlockScope
import Shc.Proofs.C.Faults
import Shc.Proofs.GrammarExact
import Shc.Proofs.Layout
import Shc.Proofs.Places.Excerpt
import Shc.Proofs.Places.Statements

/-!
# Places of nodes are places of tokens

The nodes of a parsed program stand at the first tokens of their texts.  What has no C text
is reported at the place of a node, the declaration or the use of a variable.  So there is
a token at this place, a name or a marker, and it is the only one: a message about the place
shows this token and nothing else.
-/

namespace Shc

/-! ### References and their declarations -/

def Node.reference? : Node → Option Reference
  | .reference r => some r
  | _ => none

section

open Node (reference?)

mutual

theorem Factor.references_nodes : (f : Factor) → f.nodes.filterMap reference? = f.references
  | .const .. | .string .. | .var .. => rfl
  | .paren inner _ => inner.references_nodes
  | .call _ args _ => Expr.references_allNodes args

theorem Unary.references_nodes : (u : Unary) → u.nodes.filterMap reference? = u.references
  | .factor f => f.references_nodes
  | .signed _ operand _ => operand.references_nodes

theorem Value.references_nodes : (v : Value) → v.nodes.filterMap reference? = v.references
  | .unary operand => operand.references_nodes
  | .leaf operand _ => operand.references_nodes
  | .binary _ left right _ => by
    rw [Value.nodes, List.filterMap_cons_none rfl, List.filterMap_append, left.references_nodes,
      right.references_nodes]
    rfl

theorem Slot.references_nodes : (s : Slot) → s.nodes.filterMap reference? = s.references
  | .mk none value _ => value.references_nodes
  | .mk (some target) value _ => congrArg (target :: ·) value.references_nodes

theorem Slot.references_allNodes : (ss : List Slot) →
    (Slot.allNodes ss).filterMap reference? = Slot.allReferences ss
  | [] => rfl
  | s :: ss => by
    rw [Slot.allNodes, List.filterMap_append, s.references_nodes, Slot.references_allNodes ss]
    rfl

theorem Expr.references_nodes : (e : Expr) → e.nodes.filterMap reference? = e.references
  | .mk slots _ => Slot.references_allNodes slots

theorem Expr.references_allNodes : (es : List Expr) →
    (Expr.allNodes es).filterMap reference? = Expr.allReferences es
  | [] => rfl
  | e :: es => by
    rw [Expr.allNodes, List.filterMap_append, e.references_nodes, Expr.references_allNodes es]
    rfl

end

mutual

theorem Statement.references_nodes : (s : Statement) →
    s.nodes.filterMap reference? = Mention.used s.walk
  | .branch condition yes no _ => by
    rw [Statement.nodes, List.filterMap_cons_none rfl, List.filterMap_append,
      List.filterMap_append, condition.references_nodes, Statement.references_allNodes yes,
      Statement.references_allNodes no, Statement.walk, Mention.used_append, Mention.used_append,
      Mention.used_map_use]
  | .loop condition body _ => by
    rw [Statement.nodes, List.filterMap_cons_none rfl, List.filterMap_append,
      condition.references_nodes, Statement.references_allNodes body, Statement.walk,
      Mention.used_append, Mention.used_map_use]
  | .declare .. | .brk _ | .cont _ => rfl
  | .call _ args _ => by
    rw [Statement.nodes, List.filterMap_cons_none rfl, List.filterMap_cons_none rfl,
      Expr.references_allNodes args, Statement.walk, Mention.used_map_use]
  | .ret none _ => rfl
  | .ret (some e) _ => by
    rw [Statement.nodes, List.filterMap_cons_none rfl, Statement.walk, Mention.used_map_use]
    exact e.references_nodes
  | .assign slot _ => by
    rw [Statement.nodes, List.filterMap_cons_none rfl, slot.references_nodes, Statement.walk,
      Mention.used_map_use]

theorem Statement.references_allNodes : (ss : List Statement) →
    (Statement.allNodes ss).filterMap reference? = Mention.used (Statement.walkAll ss)
  | [] => rfl
  | s :: ss => by
    rw [Statement.allNodes, List.filterMap_append, s.references_nodes,
      Statement.references_allNodes ss, Statement.walkAll, Mention.used_append]

end

theorem Function.reference_mem {f : Function} {r : Reference} (h : .reference r ∈ f.nodes) :
    r ∈ Mention.used (Statement.walkAll f.body) := by
  rw [← Statement.references_allNodes, List.mem_filterMap]
  refine ⟨.reference r, ?_, rfl⟩
  simpa [Function.nodes] using h

end

theorem Program.mem_nodes {p : Program} {node : Node} :
    node ∈ p.nodes ↔ (∃ v ∈ p.globals, .declared v = node) ∨ ∃ f ∈ p.functions, node ∈ f.nodes := by
  simp [Program.nodes]

/-- The variable of a reference is declared in the function that the reference is in. -/
theorem Program.declared_of_reference {source : Source} {p : Program} (h : parse source = .ok p)
    {r : Reference} (hr : .reference r ∈ p.nodes) : .declared r.decl ∈ p.nodes := by
  rw [mem_nodes] at hr ⊢
  rcases hr with ⟨v, -, hv⟩ | ⟨f, hf, hr⟩
  · cases hv
  · refine .inr ⟨f, hf, ?_⟩
    have hdecl := (scoped_of_parse h hf).decl_mem (Function.reference_mem hr)
    rcases List.mem_append.1 hdecl with hparam | hlocal
    · simp [Function.nodes, hparam]
    · simp [Function.nodes, hlocal]

/-! ### Errors are at nodes -/

namespace Site

/-- The node that is looked at. -/
def node : Site → Node
  | declared v => .declared v
  | read r | stored r => .reference r

theorem loc_fault (s : Site) : s.fault.loc = s.node.loc := by
  cases s with
  | stored r =>
    rw [fault]
    split <;> rfl
  | _ => rfl

end Site

mutual

theorem Factor.node_mem : (f : Factor) → ∀ s ∈ f.sites, s.node ∈ f.nodes
  | .paren inner _, s, hs => List.mem_cons_of_mem _ (inner.node_mem s hs)
  | .var reference, s, hs => by
    rw [List.mem_singleton.1 hs]
    exact List.mem_cons_of_mem _ List.mem_cons_self
  | .call _ args _, s, hs =>
    List.mem_cons_of_mem _ (List.mem_cons_of_mem _ (Expr.node_mem_all args s hs))

theorem Unary.node_mem : (u : Unary) → ∀ s ∈ u.sites, s.node ∈ u.nodes
  | .factor f, s, hs => List.mem_cons_of_mem _ (f.node_mem s hs)
  | .signed _ operand _, s, hs => List.mem_cons_of_mem _ (operand.node_mem s hs)

theorem Value.node_mem : (v : Value) → ∀ s ∈ v.sites, s.node ∈ v.nodes
  | .unary operand, s, hs => operand.node_mem s hs
  | .leaf operand _, s, hs => List.mem_cons_of_mem _ (operand.node_mem s hs)
  | .binary _ left right _, s, hs => by
    apply List.mem_cons_of_mem
    rcases List.mem_append.1 hs with hs | hs
    · exact List.mem_append_right _ (right.node_mem s hs)
    · exact List.mem_append_left _ (left.node_mem s hs)

theorem Slot.node_mem : (slot : Slot) → ∀ s ∈ slot.sites, s.node ∈ slot.nodes
  | .mk none value _, s, hs => List.mem_cons_of_mem _ (value.node_mem s hs)
  | .mk (some target) value _, s, hs => by
    apply List.mem_cons_of_mem
    rcases List.mem_append.1 hs with hs | hs
    · exact List.mem_append_right _ (value.node_mem s hs)
    · rw [List.mem_singleton.1 hs]
      exact List.mem_append_left _ List.mem_cons_self

theorem Slot.node_mem_all : (slots : List Slot) →
    ∀ s ∈ Slot.allSites slots, s.node ∈ Slot.allNodes slots
  | slot :: slots, s, hs => by
    rcases List.mem_append.1 hs with hs | hs
    · exact List.mem_append_left _ (slot.node_mem s hs)
    · exact List.mem_append_right _ (Slot.node_mem_all slots s hs)

theorem Expr.node_mem : (e : Expr) → ∀ s ∈ e.sites, s.node ∈ e.nodes
  | .mk slots _, s, hs => List.mem_cons_of_mem _ (Slot.node_mem_all slots s hs)

theorem Expr.node_mem_all : (exprs : List Expr) →
    ∀ s ∈ Expr.allSites exprs, s.node ∈ Expr.allNodes exprs
  | expr :: exprs, s, hs => by
    rcases List.mem_append.1 hs with hs | hs
    · exact List.mem_append_left _ (expr.node_mem s hs)
    · exact List.mem_append_right _ (Expr.node_mem_all exprs s hs)

end

mutual

theorem Statement.node_mem : (statement : Statement) →
    ∀ s ∈ statement.sites, s.node ∈ statement.nodes
  | .branch condition yes no _, s, hs => by
    apply List.mem_cons_of_mem
    rcases List.mem_append.1 hs with hs | hs
    · exact List.mem_append_left _ (condition.node_mem s hs)
    · apply List.mem_append_right
      rcases List.mem_append.1 hs with hs | hs
      · exact List.mem_append_left _ (Statement.node_mem_all yes s hs)
      · exact List.mem_append_right _ (Statement.node_mem_all no s hs)
  | .loop condition body _, s, hs => by
    apply List.mem_cons_of_mem
    rcases List.mem_append.1 hs with hs | hs
    · exact List.mem_append_left _ (condition.node_mem s hs)
    · exact List.mem_append_right _ (Statement.node_mem_all body s hs)
  | .declare v _, s, hs => by
    rw [List.mem_singleton.1 hs]
    exact List.mem_cons_of_mem _ List.mem_cons_self
  | .call _ args _, s, hs =>
    List.mem_cons_of_mem _ (List.mem_cons_of_mem _ (Expr.node_mem_all args s hs))
  | .ret (some value) _, s, hs => List.mem_cons_of_mem _ (value.node_mem s hs)
  | .assign slot _, s, hs => List.mem_cons_of_mem _ (slot.node_mem s hs)

theorem Statement.node_mem_all : (statements : List Statement) →
    ∀ s ∈ Statement.allSites statements, s.node ∈ Statement.allNodes statements
  | statement :: statements, s, hs => by
    rcases List.mem_append.1 hs with hs | hs
    · exact List.mem_append_left _ (statement.node_mem s hs)
    · exact List.mem_append_right _ (Statement.node_mem_all statements s hs)

end

theorem Function.node_mem_params {f : Function} {s : Site} (hs : s ∈ f.paramSites) :
    s.node ∈ f.nodes := by
  obtain ⟨v, hv, rfl⟩ := List.mem_map.1 hs
  have hparam : v ∈ f.params := by
    split at hv
    · exact List.mem_of_mem_drop hv
    · exact hv
  simp [Function.nodes, Site.node, hparam]

theorem Program.node_mem {p : Program} {s : Site} (hs : s ∈ p.sites) : s.node ∈ p.nodes := by
  rw [mem_nodes]
  rcases List.mem_append.1 hs with hs | hs
  · obtain ⟨v, hv, rfl⟩ := List.mem_map.1 hs
    exact .inl ⟨v, hv, rfl⟩
  · right
    rcases List.mem_append.1 hs with hs | hs
    · obtain ⟨f, hf, hs⟩ := List.mem_flatMap.1 hs
      exact ⟨f, hf, Function.node_mem_params hs⟩
    · obtain ⟨f, hf, hs⟩ := List.mem_flatMap.1 hs
      refine ⟨f, hf, ?_⟩
      have hnode := Statement.node_mem_all f.body s hs
      simp [Function.nodes, hnode]

/-- Without its globals a program has no other nodes. -/
theorem Program.nodes_selected (p : Program) (options : Options) :
    ∀ node ∈ (p.selected options).nodes, node ∈ p.nodes := by
  intro node hnode
  rw [selected] at hnode
  split at hnode
  · exact hnode
  · rw [mem_nodes] at hnode ⊢
    rcases hnode with ⟨v, hv, -⟩ | hfunction
    · cases hv
    · exact .inr hfunction

/-- What has no C text is reported at a declaration or at a use of a variable. -/
theorem Program.exists_node_of_error {p : Program} {options : Options} {e : C.Error}
    (h : (p.selected options).cText = .error e) :
    ∃ site : Site, site.node ∈ p.nodes ∧ site.node.loc = e.loc := by
  have hfailure := Program.failureOf_cText (p.selected options)
  rw [h] at hfailure
  obtain ⟨before, site, after, hsites, -, -, rfl⟩ :=
    Site.firstError_eq_some_iff.1 hfailure.symm
  refine ⟨site, ?_, (Site.loc_fault site).symm⟩
  apply nodes_selected p options
  apply node_mem
  rw [hsites]
  exact List.mem_append_right _ List.mem_cons_self

/-! ### Places are faithful -/

/-- The program is that of the derivation `tree` of the source.  The nodes of both are the
    same, each of them stands at the first of the tokens that it is derived from, and the
    variable of a reference is one of the variables that are declared. -/
structure Program.Located (source : Source) (p : Program) (tree : Grammar.Program) : Prop where
  tokens_eq : ∃ span, source.tokens = tree.tokens ++ [⟨.eos, span⟩]
  image_eq : tree.image = p
  perm : (tree.nodes.map Prod.fst).Perm p.nodes
  places : Places source.tokens tree.nodes
  declared : ∀ r, .reference r ∈ p.nodes → .declared r.decl ∈ p.nodes

theorem Program.exists_located {source : Source} {p : Program} (h : parse source = .ok p) :
    ∃ tree, p.Located source tree := by
  obtain ⟨tree, span, htokens, -, himage⟩ := exists_derivation h
  refine ⟨tree, ⟨span, htokens⟩, himage, ?_, ?_, fun r => declared_of_reference h⟩
  · rw [← himage]
    exact Grammar.Program.perm_map_fst_nodes tree
  · rw [htokens]
    exact (Grammar.Program.places_nodes tree).mono (List.prefix_append ..).isInfix

/-- A node of the program has a first token. -/
theorem Program.Located.exists_token {source : Source} {p : Program} {tree : Grammar.Program}
    (h : p.Located source tree) {node : Node} (hnode : node ∈ p.nodes) :
    ∃ t ∈ source.tokens, t.loc = node.loc ∧ node.Leads t.kind := by
  obtain ⟨⟨node', text⟩, hmem, rfl⟩ := List.mem_map.1 (h.perm.mem_iff.2 hnode)
  obtain ⟨hwithin, first, rest, htext, hloc, hleads⟩ := h.places _ hmem
  refine ⟨first, hwithin.subset ?_, hloc.symm, hleads⟩
  rw [htext]
  exact List.mem_cons_self

/-- Where a text has no C text, the fault is in the program that is read from it. -/
theorem exists_program_of_c_error {text : String} {options : Options} {e : C.Error}
    (h : compileText text options = .error (.c e)) :
    ∃ p, Program.parse (Source.ofString text) = .ok p ∧ (p.selected options).cText = .error e := by
  rw [compileText] at h
  cases hparse : Program.parse (Source.ofString text) with
  | error e' =>
    rw [hparse] at h
    cases h
  | ok p =>
    rw [hparse] at h
    change p.compile options = _ at h
    rw [Program.compile_of_parse hparse] at h
    refine ⟨p, rfl, ?_⟩
    cases htext : (p.selected options).cText with
    | ok c =>
      rw [htext] at h
      cases h
    | error e' =>
      rw [htext] at h
      cases h
      rfl

/-- A declaration starts with a name, and a use of a variable with a name or a marker. -/
theorem Site.kind_of_leads {site : Site} {kind : Token.Kind} (h : site.node.Leads kind) :
    kind = .symbol .caret ∨ ∃ name, kind = .ident name := by
  have href : ∀ r : Reference, (Node.reference r).Leads kind →
      kind = .symbol .caret ∨ ∃ name, kind = .ident name := by
    intro r hr
    rw [Node.Leads] at hr
    split at hr
    · exact .inr ⟨r.name, hr⟩
    · exact .inl hr
  cases site with
  | declared v => exact .inr ⟨v.name, h⟩
  | read r => exact href r h
  | stored r => exact href r h

/-- The places of the nodes of a program are the places of the first tokens of their texts.
    So a text without C text has a name or a marker at the place of the error, and the error
    is shown with this token underlined. -/
theorem Program.places_faithful :
    (∀ (source : Source) (p : Program), parse source = .ok p → ∃ tree, p.Located source tree) ∧
      ∀ (text : String) (options : Options) (e : C.Error),
        compileText text options = .error (.c e) →
        ∃ t, Diagnostic.Marks text e.loc t ∧
          (t.kind = .symbol .caret ∨ ∃ name, t.kind = .ident name) ∧
          ∀ color, (CompileError.c e).render text color =
            Diagnostic.render text e.message t.span color := by
  refine ⟨fun source p h => exists_located h, ?_⟩
  intro text options e h
  obtain ⟨p, hparse, htext⟩ := exists_program_of_c_error h
  obtain ⟨tree, hlocated⟩ := exists_located hparse
  obtain ⟨site, hnode, hloc⟩ := exists_node_of_error htext
  obtain ⟨t, ht, htoken, hleads⟩ := hlocated.exists_token hnode
  have hkind := Site.kind_of_leads hleads
  have hproper : t.isTerminal = false := by
    rw [Token.isTerminal]
    rcases hkind with hkind | ⟨name, hkind⟩ <;> rw [hkind] <;> rfl
  have hmarks := Diagnostic.marks_of_mem ht hproper
  rw [htoken, hloc] at hmarks
  exact ⟨t, hmarks, hkind, hmarks.renderAt_eq e.message⟩

namespace ExcessMarkers

/-- A variable that is used with two markers, behind a line end of two characters. -/
def text : String :=
  "fun f(p: int): int \x7b\r\n\treturn 1 + ^^p;\n\x7d"

/-- The place is that of the first marker. -/
def error : C.Error :=
  .excessIndirection "p" 0 2 ⟨2, 13⟩

theorem compileText_eq_error : compileText text ⟨false, true, none, false⟩ = .error (.c error) := by
  decide +kernel

end ExcessMarkers

theorem Program.places_faithful_samples :
    (∃ tree, Located Sample.source ⟨[], [Sample.f]⟩ tree) ∧
      ∃ t, Diagnostic.Marks ExcessMarkers.text ⟨2, 13⟩ t ∧
        (t.kind = .symbol .caret ∨ ∃ name, t.kind = .ident name) ∧
        ∀ color, (CompileError.c ExcessMarkers.error).render ExcessMarkers.text color =
          Diagnostic.render ExcessMarkers.text ExcessMarkers.error.message t.span color :=
  ⟨places_faithful.1 _ _ Sample.parse_source,
    places_faithful.2 _ _ _ ExcessMarkers.compileText_eq_error⟩

end Shc
