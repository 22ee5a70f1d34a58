import Shc.Compile.Source
import Shc.Proofs.C.Mirror

/-!
# Scopes of emitted functions

In C a name is known from its declaration to the end of the block around it.  A body
of a branch or a loop is a block in C, but in the source a variable is known in the
whole rest of the function, and declarations are written where they stand.  So every
use in an emitted function comes behind a declaration of the name, but the block of
the declaration may be over by then.  C finds every name in scope in exactly those
functions where no variable is used outside of the body that declares it.

Only some of what a function does matters for that: uses and declarations of names and
the ends of blocks, which are its events.  They are the same in the statements of the
function and in what C reads in its text.
-/

namespace Shc

open Token (allLexical_append allLexical_cons)

/-! ### Scopes of C -/

namespace C

def Definition.events (d : Definition) : List Event :=
  d.body.flatMap Item.events

/-- Every name that is used is known there.  The end of a block makes known again what
    was known in front of it, and nothing else. -/
def inScope : List String → List (List String) → List Event → Bool
  | _, _, [] => true
  | known, outer, .use x :: es => known.contains x && inScope known outer es
  | known, outer, .declare x :: es => inScope (x :: known) outer es
  | known, outer, .enter :: es => inScope known (known :: outer) es
  | _, outer, .leave :: es => inScope (outer.headD []) outer.tail es

def Definition.wellScoped (d : Definition) : Bool :=
  inScope (d.params.map Declarator.name) [] d.events

end C

/-! ### Scopes of functions -/

/-- The names that a statement makes known to those behind it in the same body. -/
def Statement.declares : Statement → List String
  | .declare v _ => [v.name]
  | _ => []

/-- The references are to known names. -/
def allKnown (known : List String) (rs : List Reference) : Bool :=
  rs.all fun r => known.contains r.name

mutual

/-- Every reference is to a name that was known before, or to a variable that is
    declared earlier in the same body or in one around it. -/
def Statement.blockScoped (known : List String) : Statement → Bool
  | .branch condition yes no _ =>
    allKnown known condition.references &&
      (Statement.allBlockScoped known yes && Statement.allBlockScoped known no)
  | .loop condition body _ =>
    allKnown known condition.references && Statement.allBlockScoped known body
  | .declare .. | .brk _ | .cont _ => true
  | .call _ args _ => allKnown known (Expr.allReferences args)
  | .ret value _ => allKnown known (value.elim [] Expr.references)
  | .assign slot _ => allKnown known slot.references

def Statement.allBlockScoped (known : List String) : List Statement → Bool
  | [] => true
  | statement :: statements =>
    statement.blockScoped known && Statement.allBlockScoped (statement.declares ++ known) statements

end

theorem C.inScope_uses (known : List String) (outer : List (List String)) (rs : List Reference)
    (es : List C.Event) :
    C.inScope known outer (uses rs ++ es) = (allKnown known rs && C.inScope known outer es) := by
  induction rs with
  | nil => rfl
  | cons r rs ih =>
    have hstep : C.inScope known outer (uses (r :: rs) ++ es) =
        (known.contains r.name && C.inScope known outer (uses rs ++ es)) := rfl
    have hcons : allKnown known (r :: rs) = (known.contains r.name && allKnown known rs) := rfl
    rw [hstep, hcons, ih, Bool.and_assoc]

mutual

/-- What comes behind a statement is in the scope of what the statement declares itself. -/
theorem Statement.inScope_events (known : List String) (outer : List (List String)) :
    (s : Statement) → (es : List C.Event) →
    C.inScope known outer (s.events ++ es) =
      (s.blockScoped known && C.inScope (s.declares ++ known) outer es)
  | .branch condition yes [] _, es => by
    have hyes := Statement.inScope_allEvents known known outer yes es
    simp only [Statement.events, List.append_assoc, List.cons_append, List.nil_append,
      C.inScope_uses, C.inScope, hyes]
    simp [Statement.blockScoped, Statement.allBlockScoped, Statement.declares, Bool.and_assoc]
  | .branch condition yes (first :: no) _, es => by
    have hno := Statement.inScope_allEvents known known outer (first :: no) es
    have hyes := Statement.inScope_allEvents known known outer yes
      (.enter :: (Statement.allEvents (first :: no) ++ .leave :: es))
    simp only [Statement.events, List.append_assoc, List.cons_append, List.nil_append,
      C.inScope_uses, C.inScope, hyes, hno]
    simp [Statement.blockScoped, Statement.declares, Bool.and_assoc]
  | .loop condition body _, es => by
    have hbody := Statement.inScope_allEvents known known outer body es
    simp only [Statement.events, List.append_assoc, List.cons_append, List.nil_append,
      C.inScope_uses, C.inScope, hbody]
    simp [Statement.blockScoped, Statement.declares, Bool.and_assoc]
  | .declare .., _ | .brk _, _ | .cont _, _ => by
    simp [Statement.events, Statement.blockScoped, Statement.declares, C.inScope]
  | .call _ args _, es => C.inScope_uses known outer _ es
  | .ret value _, es => C.inScope_uses known outer _ es
  | .assign slot _, es => C.inScope_uses known outer _ es

/-- Behind a body what it declares is forgotten. -/
theorem Statement.inScope_allEvents (known before : List String) (outer : List (List String)) :
    (ss : List Statement) → (es : List C.Event) →
    C.inScope known (before :: outer) (Statement.allEvents ss ++ .leave :: es) =
      (Statement.allBlockScoped known ss && C.inScope before outer es)
  | [], es => by simp [Statement.allEvents, Statement.allBlockScoped, C.inScope]
  | s :: ss, es => by
    rw [Statement.allEvents, List.append_assoc, Statement.inScope_events known (before :: outer) s,
      Statement.inScope_allEvents (s.declares ++ known) before outer ss es,
      Statement.allBlockScoped, Bool.and_assoc]

end

/-! ### Declarations in front -/

/-- In front of a use C has met what the walk has met there. -/
theorem declared_of_use {es : List C.Event} {ms : List (Mention Reference)}
    (hes : es.filter C.Event.isMention = ms.map Mention.event) {params : List Variable}
    (hbound : Mention.Bound (fun vars r => r.decl ∈ vars) params ms)
    {earlier later : List C.Event} {x : String} (h : es = earlier ++ .use x :: later) :
    x ∈ params.map Variable.name ∨ .declare x ∈ earlier := by
  rw [h, List.filter_append, List.filter_cons_of_pos rfl] at hes
  obtain ⟨before, rest, rfl, hbefore, hrest⟩ := List.map_eq_append_iff.1 hes.symm
  obtain ⟨m, after, rfl, hm, -⟩ := List.map_eq_cons_iff.1 hrest
  cases m with
  | declare v => exact nomatch hm
  | use r =>
    obtain rfl : r.name = x := C.Event.use.inj hm
    rcases List.mem_append.1 (hbound before r after rfl) with hparam | hlocal
    · exact .inl (List.mem_map_of_mem hparam)
    · have hevent : Mention.event (.declare r.decl) ∈ before.map Mention.event :=
        List.mem_map_of_mem (Mention.declare_mem_of_mem_declared hlocal)
      rw [hbefore] at hevent
      exact .inr (List.mem_of_mem_filter hevent)

/-! ### Parsed functions -/

namespace Grammar

theorem Params.isName_moreTokens {rest : List (Span × Param)}
    (h : Token.AllLexical (moreTokens rest)) : ∀ param ∈ rest, Lexeme.IsName param.2.name := by
  induction rest with
  | nil => simp
  | cons param rest ih =>
    obtain ⟨hparam, hrest⟩ := allLexical_append.1 (allLexical_cons.1 h).2
    exact List.forall_mem_cons.2 ⟨(allLexical_cons.1 hparam).1, ih hrest⟩

theorem Params.isName_image {params : Params} (h : Token.AllLexical params.tokens) :
    ∀ v ∈ params.image, Lexeme.IsName v.name := by
  cases params with
  | none => exact fun _ hv => absurd hv List.not_mem_nil
  | some first rest =>
    obtain ⟨hfirst, hrest⟩ := allLexical_append.1 h
    refine List.forall_mem_cons.2 ⟨(allLexical_cons.1 hfirst).1, List.forall_mem_map.2 ?_⟩
    exact Params.isName_moreTokens hrest

end Grammar

/-- What is needed of a function to follow its names into C. -/
structure Function.Checked (f : Function) : Prop where
  isName : Lexeme.IsName f.name
  params_isName : ∀ v ∈ f.params, Lexeme.IsName v.name
  wellFormed : Statement.AllWellFormed f.body
  bound : Mention.Bound (fun vars r => r.decl ∈ vars) f.params (Statement.walkAll f.body)

theorem Program.checked_of_parse {source : Source} {p : Program} (h : parse source = .ok p)
    {f : Function} (hf : f ∈ p.functions) : f.Checked := by
  obtain ⟨tree, span, htokens, hvalid, rfl⟩ := exists_derivation h
  obtain ⟨g, hg, rfl⟩ := Grammar.exists_of_mem_functions hf
  obtain ⟨-, hresolved, hdistinct, -⟩ := hvalid _ hg
  have hlexical : Token.AllLexical g.tokens := by
    intro t ht
    exact Token.allLexical_of_source htokens t (List.mem_flatMap.2 ⟨_, hg, ht⟩)
  obtain ⟨hname, hrest⟩ := allLexical_cons.1 (allLexical_cons.1 hlexical).2
  have hparams := (allLexical_append.1 (allLexical_cons.1 hrest).2).1
  exact ⟨hname, Grammar.Params.isName_image hparams, Grammar.Function.wellFormed_image hlexical,
    Grammar.Function.bound_image hresolved hdistinct⟩

/-- A function whose variables are known by their names. -/
structure Function.Scoped (f : Function) : Prop where
  checked : f.Checked
  locals_eq : f.locals = Mention.declared (Statement.walkAll f.body)
  distinct : ((f.params ++ f.locals).map Variable.name).Nodup

theorem Program.scoped_of_parse {source : Source} {p : Program} (h : parse source = .ok p)
    {f : Function} (hf : f ∈ p.functions) : f.Scoped := by
  have hchecked := checked_of_parse h hf
  obtain ⟨tree, span, -, hvalid, rfl⟩ := exists_derivation h
  obtain ⟨g, hg, rfl⟩ := Grammar.exists_of_mem_functions hf
  exact ⟨hchecked, g.locals_image, (hvalid _ hg).2.2.1⟩

theorem Function.Scoped.decl_mem {f : Function} (h : f.Scoped) {r : Reference}
    (hr : r ∈ Mention.used (Statement.walkAll f.body)) : r.decl ∈ f.params ++ f.locals := by
  rcases Mention.exists_of_mem_used hr with ⟨before, after, hsplit⟩
  have hbefore := h.checked.bound before r after hsplit
  rw [h.locals_eq, hsplit, Mention.declared_append]
  rcases List.mem_append.1 hbefore with hparam | hlocal
  · exact List.mem_append_left _ hparam
  · exact List.mem_append_right _ (List.mem_append_left _ hlocal)

/-- What C reads in the text of a function mirrors the function. -/
theorem Function.Checked.exists_mirror {f : Function} (h : f.Checked)
    (hdefinition : f.HasDefinition) :
    ∃ d, C.definition f.cDefinition = some d ∧ d.params = f.cDeclarators ∧
      C.Mirrors (.enter :: (Statement.allEvents f.body ++ [.leave])) (Statement.walkAll f.body)
        d.body := by
  refine ⟨_, f.definition_cDefinition h.isName h.params_isName h.wellFormed hdefinition, rfl, ?_⟩
  have hbody := (Statement.allMirrors 1 f.body h.wellFormed hdefinition.2).block .nil
  rw [List.append_nil] at hbody
  exact hbody

/-- The text of each function of a compiled source is in the C text, and C reads in it a
    definition that mirrors the function. -/
theorem exists_definition_of_compileText {text : String} {options : Options} {c : Compilation}
    (h : compileText text options = .ok c) {f : Function} (hf : f ∈ c.program.functions) :
    f.Scoped ∧ ∃ before after d, c.cSource = before ++ f.cDefinition ++ after ∧
      C.definition f.cDefinition = some d ∧ d.params = f.cDeclarators ∧
      C.Mirrors (.enter :: (Statement.allEvents f.body ++ [.leave])) (Statement.walkAll f.body)
        d.body := by
  obtain ⟨hparse, htext⟩ := of_compileText_eq_ok h
  have hselected : f ∈ (c.program.selected options).functions := by
    rw [Program.selected]
    split
    · exact hf
    · exact hf
  obtain ⟨hdefinition, before, after, hcontains⟩ := Program.contains_cDefinition htext hselected
  have hscoped := Program.scoped_of_parse hparse hf
  obtain ⟨d, hd⟩ := hscoped.checked.exists_mirror hdefinition
  exact ⟨hscoped, before, after, d, hcontains, hd⟩

/-- The text of each function of a compiled source is read by C as a definition with the
    same parameters, and every use of a name in it is of a parameter or behind a
    declaration of the name.  C finds all names in scope if and only if no variable is
    used outside of the branch or loop that declares it. -/
theorem compileText_wellScoped {text : String} {options : Options} {c : Compilation}
    (h : compileText text options = .ok c) {f : Function} (hf : f ∈ c.program.functions) :
    ∃ before after d, c.cSource = before ++ f.cDefinition ++ after ∧
      C.definition f.cDefinition = some d ∧
      d.params.map C.Declarator.name = f.params.map Variable.name ∧
      (∀ earlier x later, d.events = earlier ++ .use x :: later →
        x ∈ d.params.map C.Declarator.name ∨ .declare x ∈ earlier) ∧
      d.wellScoped = Statement.allBlockScoped (f.params.map Variable.name) f.body := by
  obtain ⟨hscoped, before, after, d, hcontains, hd, hdeclarators, hmirrors⟩ :=
    exists_definition_of_compileText h hf
  have hparams : d.params.map C.Declarator.name = f.params.map Variable.name := by
    rw [hdeclarators, f.name_cDeclarators]
  have hevents : d.events = .enter :: (Statement.allEvents f.body ++ [.leave]) := hmirrors.events
  refine ⟨before, after, d, hcontains, hd, hparams, ?_, ?_⟩
  · intro earlier x later hsplit
    rw [hparams]
    refine declared_of_use ?_ hscoped.checked.bound hsplit
    rw [hevents, hmirrors.mentions]
  · rw [C.Definition.wellScoped, hevents, hparams, C.inScope, Statement.inScope_allEvents]
    simp [C.inScope]

theorem Sample.exists_compileText :
    ∃ c, compileText text ⟨false, false, none, false⟩ = .ok c ∧ c.program.functions = [f] := by
  rw [compileText, show Program.parse (Source.ofString text) = _ from parse_source]
  exact ⟨_, rfl, rfl⟩

theorem compileText_wellScoped_sample :
    ∃ c, compileText Sample.text ⟨false, false, none, false⟩ = .ok c ∧
      Sample.f ∈ c.program.functions ∧
      ∃ d, C.definition Sample.f.cDefinition = some d ∧ d.wellScoped = true := by
  obtain ⟨c, hcompile, hfunctions⟩ := Sample.exists_compileText
  have hmem : Sample.f ∈ c.program.functions := hfunctions ▸ List.mem_singleton_self _
  obtain ⟨-, -, d, -, hd, -, -, hscoped⟩ := compileText_wellScoped hcompile hmem
  exact ⟨c, hcompile, hmem, d, hd, hscoped⟩

/-! ### A variable that is used outside of its branch -/

namespace Escape

/-- A variable is declared in a branch and set behind it. -/
def text : String :=
  "fun f() : void \x7b if (1) \x7b y : int; \x7d y = 2; \x7d"

def y : Variable :=
  ⟨"y", ⟨.int, 0⟩, ⟨1, 27⟩⟩

def f : Function :=
  ⟨"f", ⟨.void, 0⟩, [], [y], [
    .branch (.paren (.single (Sample.plain (.const 1 ⟨1, 22⟩))) ⟨1, 21⟩) [.declare y ⟨1, 27⟩] []
      ⟨1, 18⟩,
    .assign ⟨some ⟨y, 0, ⟨1, 38⟩⟩, Sample.plain (.const 2 ⟨1, 42⟩), ⟨1, 38⟩⟩ ⟨1, 38⟩], ⟨1, 1⟩⟩

/-- What is written for the function. -/
def cText : String :=
  "void f(void) \x7b\n    if (1) \x7b\n        uint64_t y;\n    \x7d\n    y = 2;\n\x7d\n"

theorem cDefinition_f : f.cDefinition = cText := by
  decide +kernel

theorem definition_cText : C.definition cText = some ⟨⟨"void", 0, "f"⟩, [],
    [.enter, .eval (.number 1), .enter, .declare ⟨"uint64_t", 0, "y"⟩, .leave, .eval (.word "y"),
      .eval (.number 2), .leave]⟩ := by
  decide +kernel

end Escape

/-- The variable is declared in the text of the function, but in a block that is over
    where it is used. -/
theorem compileText_not_wellScoped :
    ∃ c before d, compileText Escape.text ⟨false, false, none, false⟩ = .ok c ∧
      c.program.functions = [Escape.f] ∧ c.cSource = before ++ Escape.f.cDefinition ∧
      C.definition Escape.f.cDefinition = some d ∧
      d.events = [.enter, .enter, .declare "y", .leave, .use "y", .leave] ∧
      d.wellScoped = false := by
  have hcompile : compileText Escape.text ⟨false, false, none, false⟩ = .ok ⟨⟨[], [Escape.f]⟩,
      "#include <stdio.h>\n#include <stdlib.h>\n#include <stdint.h>\n\nvoid f(void);\n\n" ++
        Escape.cText⟩ := by
    decide +kernel
  rw [Escape.cDefinition_f]
  exact ⟨_, _, _, hcompile, rfl, rfl, Escape.definition_cText, rfl, rfl⟩

end Shc
