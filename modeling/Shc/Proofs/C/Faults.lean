import Mathlib.Data.List.Basic
import Shc.C.Generator

/-!
# The first thing that has no C text

A program can say three things that C cannot: declare a plain `void` variable, read a
variable with more than one marker over its depth, and store into an address.  The sites of
a program are its declarations and uses of variables, in the order in which they are looked
at when C is written.  A program has a C text exactly if all its sites can be written, and
else the error is that of the first site that cannot.

Types of globals come first, then the parameters of all functions, and then the bodies.
Within an expression the order is not that of the source: a right operand is written before
the left one, and a value before the variable that it is stored into.
-/

namespace Shc

/-! ### Sites -/

/-- A place of a program where a variable is declared, read or stored into. -/
inductive Site where
  | declared (v : Variable)
  | read (r : Reference)
  | stored (r : Reference)
deriving DecidableEq, Repr

namespace Site

/-- Plain `void` cannot be declared, a variable of depth `D` can be read with up to `D + 1`
    markers and stored into with up to `D`. -/
def Renderable : Site → Prop
  | declared v => v.type ≠ ⟨.void, 0⟩
  | read r => r.usage ≤ r.declared + 1
  | stored r => r.usage ≤ r.declared

instance : (s : Site) → Decidable s.Renderable
  | declared v => inferInstanceAs (Decidable (v.type ≠ ⟨.void, 0⟩))
  | read r => inferInstanceAs (Decidable (r.usage ≤ r.declared + 1))
  | stored r => inferInstanceAs (Decidable (r.usage ≤ r.declared))

/-- What is wrong with a site that cannot be written. -/
def fault : Site → C.Error
  | declared v => .voidVariable v.name v.loc
  | read r => .excessIndirection r.name r.declared r.usage r.loc
  | stored r =>
    if r.usage = r.declared + 1 then .addressAssignment r.name r.loc
    else .excessIndirection r.name r.declared r.usage r.loc

/-- The error of a site, if it cannot be written. -/
def error? (s : Site) : Option C.Error :=
  if s.Renderable then none else some s.fault

/-- The error of the first site that cannot be written. -/
def firstError (sites : List Site) : Option C.Error :=
  sites.findSome? error?

end Site

mutual

/-- The sites of a factor in the order of writing. -/
def Factor.sites : Factor → List Site
  | .const .. | .string .. => []
  | .paren inner _ => inner.sites
  | .var reference => [.read reference]
  | .call _ args _ => Expr.allSites args

def Unary.sites : Unary → List Site
  | .factor f => f.sites
  | .signed _ operand _ => operand.sites

/-- The sites of a value; the right operand comes first. -/
def Value.sites : Value → List Site
  | .unary operand => operand.sites
  | .leaf operand _ => operand.sites
  | .binary _ left right _ => right.sites ++ left.sites

/-- The sites of a slot; the value comes before the target. -/
def Slot.sites : Slot → List Site
  | .mk none value _ => value.sites
  | .mk (some target) value _ => value.sites ++ [.stored target]

def Slot.allSites : List Slot → List Site
  | [] => []
  | slot :: slots => slot.sites ++ Slot.allSites slots

def Expr.sites : Expr → List Site
  | .mk slots _ => Slot.allSites slots

def Expr.allSites : List Expr → List Site
  | [] => []
  | expr :: exprs => expr.sites ++ Expr.allSites exprs

end

mutual

/-- The sites of a statement; a condition comes before what it governs. -/
def Statement.sites : Statement → List Site
  | .branch condition yes no _ =>
    condition.sites ++ (Statement.allSites yes ++ Statement.allSites no)
  | .loop condition body _ => condition.sites ++ Statement.allSites body
  | .declare v _ => [.declared v]
  | .call _ args _ => Expr.allSites args
  | .ret value _ => value.elim [] Expr.sites
  | .brk _ | .cont _ => []
  | .assign slot _ => slot.sites

def Statement.allSites : List Statement → List Site
  | [] => []
  | statement :: statements => statement.sites ++ Statement.allSites statements

end

/-- The declarations of the parameters.  C fixes the types of the first two parameters of a
    `main` that returns plain `int`, so theirs do not count. -/
def Function.paramSites (f : Function) : List Site :=
  (if f.name = "main" ∧ f.returns = ⟨.int, 0⟩ then f.params.drop 2 else f.params).map .declared

def Program.sites (p : Program) : List Site :=
  p.globals.map .declared ++
    (p.functions.flatMap Function.paramSites ++
      p.functions.flatMap fun f => Statement.allSites f.body)

/-! ### The first error -/

namespace Site

theorem firstError_append (a b : List Site) :
    firstError (a ++ b) = (firstError a).or (firstError b) :=
  List.findSome?_append

theorem error?_eq_none_iff {s : Site} : s.error? = none ↔ s.Renderable := by
  rw [error?, ite_eq_left_iff]
  simp

theorem error?_eq_some_iff {s : Site} {e : C.Error} :
    s.error? = some e ↔ ¬ s.Renderable ∧ e = s.fault := by
  rw [error?, ite_eq_iff]
  simp [eq_comm]

theorem firstError_eq_none_iff {sites : List Site} :
    firstError sites = none ↔ ∀ s ∈ sites, s.Renderable := by
  rw [firstError, List.findSome?_eq_none_iff]
  simp only [error?_eq_none_iff]

theorem firstError_eq_some_iff {sites : List Site} {e : C.Error} :
    firstError sites = some e ↔ ∃ before s after, sites = before ++ s :: after ∧
      (∀ s' ∈ before, s'.Renderable) ∧ ¬ s.Renderable ∧ e = s.fault := by
  rw [firstError, List.findSome?_eq_some_iff]
  simp only [error?_eq_none_iff, error?_eq_some_iff]
  constructor
  · rintro ⟨before, s, after, hsites, hs, hbefore⟩
    exact ⟨before, s, after, hsites, hbefore, hs⟩
  · rintro ⟨before, s, after, hsites, hbefore, hs⟩
    exact ⟨before, s, after, hsites, hs, hbefore⟩

theorem firstError_of_renderable {s : Site} (h : s.Renderable) : firstError [s] = none := by
  rw [firstError, List.findSome?_singleton, error?, if_pos h]

theorem firstError_of_not_renderable {s : Site} (h : ¬ s.Renderable) :
    firstError [s] = some s.fault := by
  rw [firstError, List.findSome?_singleton, error?, if_neg h]

/-- If the first parts of all members can be written, only the second ones count. -/
theorem firstError_flatMap_append {α : Type} (xs : List α) {a b : α → List Site}
    (h : firstError (xs.flatMap a) = none) :
    firstError (xs.flatMap fun x => a x ++ b x) = firstError (xs.flatMap b) := by
  induction xs with
  | nil => rfl
  | cons x xs ih =>
    rw [List.flatMap_cons, firstError_append, Option.or_eq_none_iff] at h
    simp only [List.flatMap_cons, firstError_append, h.1, ih h.2, Option.none_or]

end Site

open Site (firstError firstError_append)

/-! ### Errors of texts -/

/-- Why there is no text, if there is none. -/
def failureOf {α : Type} : Except C.Error α → Option C.Error
  | .ok _ => none
  | .error e => some e

/-- One text after the other: the first failure counts. -/
theorem failureOf_bind {α β : Type} {x : Except C.Error α} {k : α → Except C.Error β}
    {a b : List Site} (hx : failureOf x = firstError a)
    (hk : ∀ v, failureOf (k v) = firstError b) :
    failureOf (x >>= k) = firstError (a ++ b) := by
  rw [firstError_append, ← hx]
  cases x with
  | error e => rfl
  | ok v => exact hk v

/-- Nothing can fail any more. -/
theorem failureOf_bind_pure {α β : Type} {x : Except C.Error α} {f : α → β} {a : List Site}
    (hx : failureOf x = firstError a) :
    failureOf (x >>= fun v => pure (f v)) = firstError a := by
  rw [← a.append_nil]
  exact failureOf_bind hx fun _ => rfl

theorem Variable.failureOf_declaration (v : Variable) :
    failureOf v.declaration = firstError [.declared v] := by
  have hvoid : v.type.isVoid = true ↔ v.type = ⟨.void, 0⟩ := by
    rcases v with ⟨name, ⟨base, depth⟩, loc⟩
    simp [Ty.isVoid, Ty.isPointer]
  rw [declaration]
  by_cases h : v.type = ⟨.void, 0⟩
  · have hsite : ¬ (Site.declared v).Renderable := not_not.2 h
    rw [if_pos (hvoid.2 h), Site.firstError_of_not_renderable hsite]
    rfl
  · have hsite : (Site.declared v).Renderable := h
    rw [if_neg (mt hvoid.1 h), Site.firstError_of_renderable hsite]
    rfl

namespace Reference

variable {r : Reference}

theorem indirection_of_le (h : r.usage ≤ r.declared) :
    r.indirection = .ok (.deref (r.declared - r.usage)) := by
  rw [indirection, Indirection.ofDepths?, if_pos h]

theorem indirection_of_eq (h : r.usage = r.declared + 1) : r.indirection = .ok .addressOf := by
  rw [indirection, Indirection.ofDepths?, if_neg (by omega), if_pos h]

theorem indirection_of_lt (h : r.declared + 1 < r.usage) :
    r.indirection = .error (.excessIndirection r.name r.declared r.usage r.loc) := by
  rw [indirection, Indirection.ofDepths?, if_neg (by omega), if_neg (by omega)]

theorem failureOf_cText (r : Reference) : failureOf r.cText = firstError [.read r] := by
  rw [cText]
  rcases Nat.lt_trichotomy r.usage (r.declared + 1) with hlt | heq | hgt
  · have hsite : (Site.read r).Renderable := Nat.le_of_lt hlt
    rw [indirection_of_le (Nat.le_of_lt_succ hlt), Site.firstError_of_renderable hsite]
    rfl
  · have hsite : (Site.read r).Renderable := Nat.le_of_eq heq
    rw [indirection_of_eq heq, Site.firstError_of_renderable hsite]
    rfl
  · have hsite : ¬ (Site.read r).Renderable := Nat.not_le.2 hgt
    rw [indirection_of_lt hgt, Site.firstError_of_not_renderable hsite]
    rfl

theorem failureOf_cTarget (r : Reference) : failureOf r.cTarget = firstError [.stored r] := by
  rw [cTarget]
  rcases Nat.lt_trichotomy r.usage (r.declared + 1) with hlt | heq | hgt
  · have hsite : (Site.stored r).Renderable := Nat.le_of_lt_succ hlt
    rw [indirection_of_le (Nat.le_of_lt_succ hlt), Site.firstError_of_renderable hsite]
    rfl
  · have hsite : ¬ (Site.stored r).Renderable := Nat.not_le.2 (heq ▸ Nat.lt_succ_self _)
    rw [indirection_of_eq heq, Site.firstError_of_not_renderable hsite, Site.fault, if_pos heq]
    rfl
  · have hsite : ¬ (Site.stored r).Renderable := Nat.not_le.2 (Nat.lt_of_succ_lt hgt)
    rw [indirection_of_lt hgt, Site.firstError_of_not_renderable hsite, Site.fault,
      if_neg (Nat.ne_of_gt hgt)]
    rfl

end Reference

mutual

theorem Factor.failureOf_cText : (f : Factor) → failureOf f.cText = firstError f.sites
  | .const .. | .string .. => rfl
  | .paren inner _ => failureOf_bind_pure inner.failureOf_cText
  | .var reference => reference.failureOf_cText
  | .call _ args _ => failureOf_bind_pure (Expr.failureOf_cTexts args)

theorem Unary.failureOf_cText : (u : Unary) → failureOf u.cText = firstError u.sites
  | .factor f => f.failureOf_cText
  | .signed _ (.factor f) _ => failureOf_bind_pure f.failureOf_cText
  | .signed _ (.signed sign operand loc) _ =>
    failureOf_bind_pure (Unary.signed sign operand loc).failureOf_cText

theorem Value.failureOf_cText : (v : Value) → failureOf v.cText = firstError v.sites
  | .unary operand => operand.failureOf_cText
  | .leaf operand _ => operand.failureOf_cText
  | .binary _ left right _ =>
    failureOf_bind right.failureOf_cText fun _ => failureOf_bind_pure left.failureOf_cText

theorem Slot.failureOf_cText : (s : Slot) → failureOf s.cText = firstError s.sites
  | .mk none value _ => value.failureOf_cText
  | .mk (some target) value _ =>
    failureOf_bind value.failureOf_cText fun _ => failureOf_bind_pure target.failureOf_cTarget

theorem Slot.failureOf_cTexts : (ss : List Slot) →
    failureOf (Slot.cTexts ss) = firstError (Slot.allSites ss)
  | [] => rfl
  | slot :: slots =>
    failureOf_bind slot.failureOf_cText fun _ => failureOf_bind_pure (Slot.failureOf_cTexts slots)

theorem Expr.failureOf_cText : (e : Expr) → failureOf e.cText = firstError e.sites
  | .mk slots _ => failureOf_bind_pure (Slot.failureOf_cTexts slots)

theorem Expr.failureOf_cTexts : (es : List Expr) →
    failureOf (Expr.cTexts es) = firstError (Expr.allSites es)
  | [] => rfl
  | expr :: exprs =>
    failureOf_bind expr.failureOf_cText fun _ => failureOf_bind_pure (Expr.failureOf_cTexts exprs)

end

theorem Factor.failureOf_cCondition (f : Factor) : failureOf f.cCondition = firstError f.sites := by
  cases f with
  | paren inner loc => exact Factor.failureOf_cText _
  | _ => exact failureOf_bind_pure (Factor.failureOf_cText _)

/-! ### Errors of statements -/

namespace Emission

theorem failure_empty : empty.failure = firstError [] :=
  rfl

theorem failure_line (level : Nat) (text : String) : (line level text).failure = firstError [] :=
  rfl

theorem failure_andThen_eq {a b : Emission} {sites sites' : List Site}
    (ha : a.failure = firstError sites) (hb : b.failure = firstError sites') :
    (a.andThen b).failure = firstError (sites ++ sites') := by
  rw [firstError_append, ← ha, ← hb, andThen]
  cases h : a.failure with
  | none => rfl
  | some e => exact h

theorem failure_tryLine (level : Nat) {x : Except C.Error String} {sites : List Site}
    (h : failureOf x = firstError sites) : (tryLine level x).failure = firstError sites := by
  rw [← h]
  cases x with
  | ok text => rfl
  | error e => rfl

end Emission

mutual

theorem Statement.failure_emit (level : Nat) : (s : Statement) →
    (s.emit level).failure = firstError s.sites
  | .branch condition yes [] _ => by
    have hhead := Emission.failure_tryLine level
      (failureOf_bind_pure (f := fun text => "if " ++ text ++ " \x7b")
        condition.failureOf_cCondition)
    have hyes := Emission.failure_andThen_eq hhead (Statement.failure_emitAll (level + 1) yes)
    have hend := Emission.failure_andThen_eq (Emission.failure_andThen_eq hyes
      (Emission.failure_empty)) (Emission.failure_line level "\x7d")
    rw [List.append_nil, List.append_nil] at hend
    rw [Statement.sites, Statement.allSites, List.append_nil]
    exact hend
  | .branch condition yes (first :: no) _ => by
    have hhead := Emission.failure_tryLine level
      (failureOf_bind_pure (f := fun text => "if " ++ text ++ " \x7b")
        condition.failureOf_cCondition)
    have hyes := Emission.failure_andThen_eq hhead (Statement.failure_emitAll (level + 1) yes)
    have hno := Emission.failure_andThen_eq (Emission.failure_line level "\x7d else \x7b")
      (Statement.failure_emitAll (level + 1) (first :: no))
    have hend := Emission.failure_andThen_eq (Emission.failure_andThen_eq hyes hno)
      (Emission.failure_line level "\x7d")
    rw [List.append_nil, List.nil_append, List.append_assoc] at hend
    rw [Statement.sites]
    exact hend
  | .loop condition body _ => by
    have hhead := Emission.failure_tryLine level
      (failureOf_bind_pure (f := fun text => "while " ++ text ++ " \x7b")
        condition.failureOf_cCondition)
    have hbody := Emission.failure_andThen_eq hhead (Statement.failure_emitAll (level + 1) body)
    have hend := Emission.failure_andThen_eq hbody (Emission.failure_line level "\x7d")
    rw [List.append_nil] at hend
    rw [Statement.sites]
    exact hend
  | .declare v _ =>
    Emission.failure_tryLine level (failureOf_bind_pure v.failureOf_declaration)
  | .call _ args _ =>
    Emission.failure_tryLine level (failureOf_bind_pure (Expr.failureOf_cTexts args))
  | .ret (some value) _ =>
    Emission.failure_tryLine level (failureOf_bind_pure value.failureOf_cText)
  | .ret none _ | .brk _ | .cont _ => rfl
  | .assign slot _ => Emission.failure_tryLine level (failureOf_bind_pure slot.failureOf_cText)

theorem Statement.failure_emitAll (level : Nat) : (ss : List Statement) →
    (Statement.emitAll level ss).failure = firstError (Statement.allSites ss)
  | [] => rfl
  | s :: ss =>
    Emission.failure_andThen_eq (Statement.failure_emit level s)
      (Statement.failure_emitAll level ss)

end

/-! ### Errors of programs -/

namespace Function

theorem failureOf_declarations (vs : List Variable) :
    failureOf (declarations vs) = firstError (vs.map .declared) := by
  induction vs with
  | nil => rfl
  | cons v vs ih => exact failureOf_bind v.failureOf_declaration fun _ => failureOf_bind_pure ih

theorem failureOf_entryDeclarations (vs : List Variable) :
    failureOf (entryDeclarations vs) = firstError ((vs.drop 2).map .declared) := by
  rcases vs with _ | ⟨count, _ | ⟨strings, vs⟩⟩
  · rfl
  · rfl
  · exact failureOf_bind_pure (failureOf_declarations vs)

theorem failureOf_cParams (f : Function) : failureOf f.cParams = firstError f.paramSites := by
  rw [cParams, paramSites]
  have hentry : f.isEntryPoint = true ↔ f.name = "main" ∧ f.returns = ⟨.int, 0⟩ := by
    simp [isEntryPoint]
  generalize f.params = params
  cases params with
  | nil =>
    rw [List.drop_nil, ite_self]
    rfl
  | cons v vs =>
    dsimp only
    by_cases h : f.name = "main" ∧ f.returns = ⟨.int, 0⟩
    · rw [if_pos h, if_pos (hentry.2 h)]
      exact failureOf_bind_pure (failureOf_entryDeclarations (v :: vs))
    · rw [if_neg h, if_neg (mt hentry.1 h)]
      exact failureOf_bind_pure (failureOf_declarations (v :: vs))

theorem failureOf_signature (f : Function) : failureOf f.signature = firstError f.paramSites :=
  failureOf_bind_pure f.failureOf_cParams

end Function

namespace Generator

theorem failure_emitList (level : Nat) {α : Type} (xs : List α) {text : α → Except C.Error String}
    {sites : α → List Site} (h : ∀ x, failureOf (text x) = firstError (sites x)) :
    (emitList level (xs.map text)).failure = firstError (xs.flatMap sites) := by
  induction xs with
  | nil => rfl
  | cons x xs ih => exact Emission.failure_andThen_eq (Emission.failure_tryLine level (h x)) ih

theorem failure_globals (g : Generator) (vs : List Variable) :
    (g.globals vs).1 = firstError (vs.map .declared) := by
  cases vs with
  | nil => rfl
  | cons v vs =>
    rw [List.map_eq_flatMap]
    exact failure_emitList g.level (v :: vs) fun v => failureOf_bind_pure v.failureOf_declaration

theorem failure_prototypes (g : Generator) (fs : List Function) :
    (g.prototypes fs).1 = firstError (fs.flatMap Function.paramSites) := by
  cases fs with
  | nil => rfl
  | cons f fs =>
    exact failure_emitList g.level (f :: fs) fun f => failureOf_bind_pure f.failureOf_signature

theorem failure_function (g : Generator) (f : Function) :
    (g.function f).1 = firstError (f.paramSites ++ Statement.allSites f.body) := by
  rw [firstError_append, ← f.failureOf_signature, function,
    ← Statement.failure_emitAll (g.level + 1) f.body]
  cases f.signature with
  | error e => rfl
  | ok signature =>
    dsimp only
    cases (Statement.emitAll (g.level + 1) f.body).failure with
    | some e => rfl
    | none => rfl

theorem failure_laterFunctions (g : Generator) (fs : List Function) :
    (g.laterFunctions fs).1 =
      firstError (fs.flatMap fun f => f.paramSites ++ Statement.allSites f.body) := by
  induction fs generalizing g with
  | nil => rfl
  | cons f fs ih =>
    rw [laterFunctions, List.flatMap_cons, firstError_append,
      ← failure_function (g.write [.blank]) f]
    generalize (g.write [.blank]).function f = first
    rcases first with ⟨_ | e, g'⟩
    · exact ih g'
    · rfl

theorem failure_functions (g : Generator) (fs : List Function) :
    (g.functions fs).1 =
      firstError (fs.flatMap fun f => f.paramSites ++ Statement.allSites f.body) := by
  cases fs with
  | nil => rfl
  | cons f fs =>
    rw [functions, List.flatMap_cons, firstError_append, ← failure_function g f]
    generalize g.function f = first
    rcases first with ⟨_ | e, g'⟩
    · exact failure_laterFunctions g' fs
    · rfl

/-- The signatures are written twice, as prototypes and with the bodies, but a failure shows at
    the prototype already. -/
theorem failure_program (g : Generator) (p : Program) :
    (g.program p).1 = firstError p.sites := by
  have hglobals := failure_globals g.preamble p.globals
  rw [program, Program.sites, firstError_append, firstError_append, ← hglobals]
  generalize g.preamble.globals p.globals = afterGlobals
  rcases afterGlobals with ⟨_ | e, g₁⟩
  · have hprototypes := failure_prototypes g₁ p.functions
    dsimp only
    rw [Option.none_or, ← hprototypes]
    generalize g₁.prototypes p.functions = afterPrototypes at hprototypes ⊢
    rcases afterPrototypes with ⟨_ | e, g₂⟩
    · rw [Option.none_or, ← Site.firstError_flatMap_append p.functions hprototypes.symm]
      exact failure_functions g₂ p.functions
    · rfl
  · rfl

end Generator

namespace Program

theorem failureOf_cText (p : Program) : failureOf p.cText = firstError p.sites := by
  rw [← Generator.failure_program Generator.new p, cText]
  generalize Generator.new.program p = ran
  rcases ran with ⟨_ | e, g⟩
  · rfl
  · rfl

/-- A program has a C text exactly if no global, no declared local and no parameter, apart from
    the first two of an entry point, is plain `void`, every variable is read with at most one
    marker more than its depth, and none is stored into with more markers than its depth.
    Otherwise the error is that of the first site where this fails, in the order of writing. -/
theorem cText_firstViolation (p : Program) :
    ((∃ text, p.cText = .ok text) ↔ ∀ s ∈ p.sites, s.Renderable) ∧
      ∀ e, p.cText = .error e ↔ ∃ before s after, p.sites = before ++ s :: after ∧
        (∀ s' ∈ before, s'.Renderable) ∧ ¬ s.Renderable ∧ e = s.fault := by
  have hfailure := p.failureOf_cText
  rw [← Site.firstError_eq_none_iff]
  simp only [← Site.firstError_eq_some_iff, ← hfailure]
  cases p.cText with
  | ok text => simp [failureOf]
  | error e => simp [failureOf]

end Program

end Shc
