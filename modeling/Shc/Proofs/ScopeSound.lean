import Shc.Proofs.GrammarExact

/-!
# References of parsed functions

A walk through the body of a function meets references and declarations, the
branch taken first before the other one and a condition before what it guards.
In a parsed function every reference that is met carries a parameter or a variable
that was declared before on the walk, and the locals are the variables declared on
the walk, no two of them under one name.  What a call holds in place of its callee
is only a name, and the walk does not go there.

The walk through the image of a derivation leaves out only what occurs in initial
values, which are checked and dropped.
-/

namespace Shc

/-! ### References of expressions -/

mutual

/-- The references in a factor. -/
def Factor.references : Factor → List Reference
  | .const .. | .string .. => []
  | .paren inner _ => inner.references
  | .var reference => [reference]
  | .call _ args _ => Expr.allReferences args

def Unary.references : Unary → List Reference
  | .factor f => f.references
  | .signed _ operand _ => operand.references

def Value.references : Value → List Reference
  | .unary operand => operand.references
  | .leaf operand _ => operand.references
  | .binary _ left right _ => left.references ++ right.references

/-- The references in a slot, its target first. -/
def Slot.references : Slot → List Reference
  | .mk target value _ => target.toList ++ value.references

def Slot.allReferences : List Slot → List Reference
  | [] => []
  | slot :: slots => slot.references ++ Slot.allReferences slots

def Expr.references : Expr → List Reference
  | .mk slots _ => Slot.allReferences slots

def Expr.allReferences : List Expr → List Reference
  | [] => []
  | expr :: exprs => expr.references ++ Expr.allReferences exprs

end

@[simp] theorem Expr.references_plainExpr (value : Value) (loc : Location) :
    (Grammar.plainExpr value loc).references = value.references := by
  simp [Grammar.plainExpr, Expr.references, Slot.allReferences, Slot.references]

/-! ### Walks through statements -/

mutual

/-- What a walk through a statement meets. -/
def Statement.walk : Statement → List (Mention Reference)
  | .branch condition yes no _ =>
    condition.references.map .use ++ (Statement.walkAll yes ++ Statement.walkAll no)
  | .loop condition body _ => condition.references.map .use ++ Statement.walkAll body
  | .declare v _ => [.declare v]
  | .call _ args _ => (Expr.allReferences args).map .use
  | .ret value _ => (value.elim [] Expr.references).map .use
  | .brk _ | .cont _ => []
  | .assign slot _ => slot.references.map .use

def Statement.walkAll : List Statement → List (Mention Reference)
  | [] => []
  | statement :: statements => statement.walk ++ Statement.walkAll statements

end

theorem Statement.walkAll_append (first second : List Statement) :
    walkAll (first ++ second) = walkAll first ++ walkAll second := by
  induction first with
  | nil => rfl
  | cons statement first ih => simp [walkAll, ih]

theorem Statement.walkAll_singleton (statement : Statement) :
    walkAll [statement] = statement.walk := by
  simp [walkAll]

/-! ### Walks through images -/

namespace Grammar

section

variable {env : String → Variable}

mutual

theorem Factor.references_image : (t : Factor) →
    (t.image env).references.map Reference.decl = t.uses.map env
  | .int .. | .char .. | .bool .. | .string .. | .var .. => rfl
  | .paren _ inner _ => by
    simp [Factor.image, Shc.Factor.references, Factor.uses, inner.references_image]
  | .call _ _ _ args _ => by
    simp [Factor.image, Shc.Factor.references, Factor.uses, args.references_image]

theorem Unary.references_image : (t : Unary) →
    (t.image env).references.map Reference.decl = t.uses.map env
  | .signed _ _ operand => operand.references_image
  | .marked .. => rfl
  | .factor factor => factor.references_image

theorem Chain.references_image {layers : List Layer} : (t : Chain layers) →
    (t.image env).references.map Reference.decl = t.uses.map env
  | .unary operand => operand.references_image
  | .layer first rest => by
    rw [Chain.image, rest.references_image, Value.references, first.references_image, Chain.uses,
      List.map_append]

theorem Links.references_image {layer : Layer} {below : List Layer} :
    (t : Links layer below) → (start : Location) → (left : Value) →
    (t.image env start left).references.map Reference.decl =
      left.references.map Reference.decl ++ t.uses.map env
  | .nil, _, left => by simp [Links.image, Links.uses]
  | .cons _ _ _ operand rest, start, left => by
    rw [Links.image, rest.references_image, Value.references, Links.uses, List.map_append,
      operand.references_image, List.map_append, List.append_assoc]

theorem Args.references_image : (t : Args) →
    (Shc.Expr.allReferences (t.image env)).map Reference.decl = t.uses.map env
  | .none => rfl
  | .some first rest => by
    simp [Args.image, Shc.Expr.allReferences, Args.uses, first.references_image,
      rest.references_image]

theorem MoreArgs.references_image : (t : MoreArgs) →
    (Shc.Expr.allReferences (t.image env)).map Reference.decl = t.uses.map env
  | .nil => rfl
  | .cons _ arg rest => by
    simp [MoreArgs.image, Shc.Expr.allReferences, MoreArgs.uses, arg.references_image,
      rest.references_image]

end

/-- A reference stands for a name if it carries the variable of that name. -/
def Denotes (env : String → Variable) (name : String) (r : Reference) : Prop :=
  r.decl = env name

theorem forall₂_denotes {uses : List String} {rs : List Reference}
    (h : rs.map Reference.decl = uses.map env) : List.Forall₂ (Denotes env) uses rs := by
  induction uses generalizing rs with
  | nil =>
    obtain rfl := List.map_eq_nil_iff.1 h
    exact .nil
  | cons name uses ih =>
    cases rs with
    | nil => simp at h
    | cons r rs =>
      simp only [List.map_cons, List.cons.injEq] at h
      exact .cons h.1 (ih h.2)

/-- The walk through the image of a walk refines the walk. -/
abbrev Traces (env : String → Variable) (mentions : List (Mention String))
    (statements : List Shc.Statement) : Prop :=
  Mention.Refines (Denotes env) id mentions (Statement.walkAll statements)

theorem refines_uses {uses : List String} {rs : List Reference}
    (h : rs.map Reference.decl = uses.map env) :
    Mention.Refines (Denotes env) id (uses.map .use) (rs.map .use) :=
  .map_use (forall₂_denotes h)

mutual

theorem Statement.traces : (t : Statement) → Traces env t.mentions (t.image env)
  | .block _ inner _ => inner.traces
  | .branch _ condition yes => by
    rw [Traces, Statement.image, Shc.Statement.walkAll_singleton, Shc.Statement.walk]
    refine .append (refines_uses ?_) ?_
    · simp [Condition.image, Shc.Factor.references, Chain.expr,
        condition.inner.references_image]
    · rw [Shc.Statement.walkAll, List.append_nil]
      exact yes.traces
  | .branchElse _ condition yes _ no => by
    rw [Traces, Statement.image, Shc.Statement.walkAll_singleton, Shc.Statement.walk]
    refine .append (refines_uses ?_) (.append yes.traces no.traces)
    simp [Condition.image, Shc.Factor.references, Chain.expr,
        condition.inner.references_image]
  | .loop _ condition body => by
    rw [Traces, Statement.image, Shc.Statement.walkAll_singleton, Shc.Statement.walk]
    refine .append (refines_uses ?_) body.traces
    simp [Condition.image, Shc.Factor.references, Chain.expr,
        condition.inner.references_image]
  | .brk .. | .cont .. | .empty .. => .nil
  | .ret _ value _ => by
    rw [Traces, Statement.image, Shc.Statement.walkAll_singleton, Shc.Statement.walk]
    refine refines_uses ?_
    cases value with
    | none => rfl
    | some e => simp [Chain.expr, e.references_image]
  | .declare declaration => by
    rw [Traces, Statement.image, Shc.Statement.walkAll_singleton, Shc.Statement.walk]
    exact .drop_all _ (.declare .nil)
  | .call _ _ _ args _ _ => by
    rw [Traces, Statement.image, Shc.Statement.walkAll_singleton, Shc.Statement.walk]
    exact refines_uses args.references_image
  | .assign _ name _ _ value _ => by
    rw [Traces, Statement.image, Shc.Statement.walkAll_singleton, Shc.Statement.walk]
    exact .use rfl (refines_uses value.references_image)

theorem Body.traces : (t : Body) → Traces env t.mentions (t.image env)
  | .block _ inner _ => inner.traces
  | .single statement => statement.traces

theorem Statements.traces : (t : Statements) → Traces env t.mentions (t.image env)
  | .nil => .nil
  | .cons first rest => by
    rw [Traces, Statements.image, Shc.Statement.walkAll_append]
    exact .append first.traces rest.traces

end

end

namespace Function

theorem name_env (f : Function) (name : String) : (f.env name).name = name := by
  rw [env]
  cases hfind : f.vars.find? (·.name = name) with
  | none => rfl
  | some v => simpa using List.find?_some hfind

/-- Every reference in the body of the image is justified by the variables known at
    its place. -/
theorem bound_image {f : Function} (hresolved : f.Resolved) (hdistinct : f.Distinct) :
    Mention.Bound (fun vars r => r.decl ∈ vars) f.params.image
      (Statement.walkAll f.image.body) := by
  have htraces : Traces f.env f.body.mentions f.image.body := f.body.traces
  -- the name of a reference is known, and the environment gives each name its variable
  have hnamed : Mention.Bound
      (fun vars r => r.decl.name ∈ vars.map Variable.name ∧ r.decl = f.env r.decl.name)
      (f.params.image.map id) (Statement.walkAll f.image.body) := by
    refine htraces.bound ?_ hresolved
    intro known name r hdenotes hknown
    rw [Denotes] at hdenotes
    rw [hdenotes, name_env, List.map_id]
    exact ⟨hknown, rfl⟩
  rw [List.map_id] at hnamed
  intro before r after hsplit
  obtain ⟨hmem, henv⟩ := hnamed before r after hsplit
  obtain ⟨v, hv, hname⟩ := List.mem_map.1 hmem
  have hvars : v ∈ f.vars := by
    have hdeclared := htraces.declared_eq
    rw [hsplit, Mention.declared_append, List.map_id] at hdeclared
    rw [vars, locals, ← hdeclared, ← List.append_assoc]
    exact List.mem_append_left _ hv
  rw [henv, ← hname, env_eq_of_mem hdistinct hvars]
  exact hv

theorem locals_image (f : Function) :
    f.image.locals = Mention.declared (Statement.walkAll f.image.body) := by
  have htraces : Traces f.env f.body.mentions f.image.body := f.body.traces
  rw [htraces.declared_eq, List.map_id]
  rfl

end Function

/-- A function of the image of a program is the image of one of its functions. -/
theorem exists_of_mem_functions {p : Program} {f : Shc.Function} (h : f ∈ p.image.functions) :
    ∃ g : Function, .function g ∈ p ∧ g.image = f := by
  obtain ⟨item, hmem, hitem⟩ := List.mem_filterMap.1 h
  cases item with
  | declaration d => simp [Item.function?] at hitem
  | function g => exact ⟨g, hmem, by simpa [Item.function?] using hitem⟩

end Grammar

/-- In every function of a parsed program the names of the parameters and locals are
    distinct, the locals are the variables declared on a walk through the body, and
    each reference on the walk carries a parameter or a variable declared before. -/
theorem Program.scope_sound {source : Source} {p : Program} (h : parse source = .ok p)
    {f : Function} (hf : f ∈ p.functions) :
    ((f.params ++ f.locals).map Variable.name).Nodup ∧
      f.locals = Mention.declared (Statement.walkAll f.body) ∧
      ∀ before r after, Statement.walkAll f.body = before ++ .use r :: after →
        r.decl ∈ f.params ++ Mention.declared before := by
  obtain ⟨tree, span, -, hvalid, rfl⟩ := exists_derivation h
  obtain ⟨g, hg, rfl⟩ := Grammar.exists_of_mem_functions hf
  obtain ⟨-, hresolved, hdistinct, -⟩ := hvalid _ hg
  exact ⟨hdistinct, g.locals_image, Grammar.Function.bound_image hresolved hdistinct⟩

theorem Program.scope_sound_sample :
    parse Sample.source = .ok ⟨[], [Sample.f]⟩ ∧
      ((Sample.f.params ++ Sample.f.locals).map Variable.name).Nodup ∧
      Sample.f.locals = Mention.declared (Statement.walkAll Sample.f.body) ∧
      Sample.p ∈ Sample.f.params ++
        Mention.declared [.declare Sample.n, .use (Reference.mk Sample.n 0 ⟨1, 36⟩)] := by
  obtain ⟨hnodup, hlocals, huses⟩ := Program.scope_sound Sample.parse_source List.mem_cons_self
  have hwalk : Statement.walkAll Sample.f.body =
      [.declare Sample.n, .use ⟨Sample.n, 0, ⟨1, 36⟩⟩] ++ .use ⟨Sample.p, 0, ⟨1, 43⟩⟩ ::
        [.use ⟨Sample.p, 2, ⟨1, 49⟩⟩] := rfl
  exact ⟨Sample.parse_source, hnodup, hlocals, huses _ _ _ hwalk⟩

end Shc
