import Shc.Proofs.C.BlockScope

/-!
# Pointer depths in emitted functions

A variable of depth `D` that is used with `U` markers is written in C with `D - U`
dereferences, or with its address taken.  Whether this denotes a value of pointer depth
`U` in C depends on the stars in the declarator of the variable: it does exactly if
there are `D` of them.  Every declarator has as many as its variable is deep, apart from
two.  The first two parameters of an entry point have the types that C asks for,
whatever they were declared with.
-/

namespace Shc

/-! ### Declarators and occurrences -/

namespace C

/-- The pointer depth of an occurrence, by the depths of the variables.  Nothing but a
    pointer can be dereferenced. -/
def Tree.depth? (stars : String → Option Nat) : Tree → Option Nat
  | .word x => stars x
  | .unary .address operand => (operand.depth? stars).map (· + 1)
  | .unary .deref operand =>
    match operand.depth? stars with
    | some (n + 1) => some n
    | _ => none
  | _ => none

namespace Definition

/-- The declarators of the parameters and of the declarations in the body. -/
def declarators (d : Definition) : List Declarator :=
  d.params ++ d.body.filterMap Item.declarator?

def occurrences (d : Definition) : List Tree :=
  d.body.flatMap Item.occurrences

/-- The number of stars in the declarator of a name. -/
def stars (d : Definition) (x : String) : Option Nat :=
  (d.declarators.find? (·.name = x)).map Declarator.depth

theorem stars_of_mem {d : Definition} (hnodup : (d.declarators.map Declarator.name).Nodup)
    {dec : Declarator} (h : dec ∈ d.declarators) : d.stars dec.name = some dec.depth := by
  rw [stars, find?_of_nodup hnodup h]
  rfl

end Definition

/-! ### The depth of one occurrence -/

theorem Tree.depth_derefs {stars : String → Option Nat} {x : String} {depth : Nat}
    (h : stars x = some depth) (n : Nat) :
    (derefs n (.word x)).depth? stars = if n ≤ depth then some (depth - n) else none := by
  induction n with
  | zero => exact h
  | succ n ih =>
    rw [derefs, depth?, ih]
    by_cases hlt : n + 1 ≤ depth
    · rw [if_pos hlt, if_pos (Nat.le_of_succ_le hlt), show depth - n = depth - (n + 1) + 1 by omega]
    · rw [if_neg hlt]
      by_cases hle : n ≤ depth
      · rw [if_pos hle, show depth - n = 0 by omega]
      · rw [if_neg hle]

end C

/-- An occurrence has as many levels as there are markers exactly if the declarator has
    as many stars as the variable is deep. -/
theorem Reference.depth_cTree {r : Reference} {o : C.Tree} (ho : r.cTree = some o)
    {stars : String → Option Nat} {depth : Nat} (h : stars r.name = some depth) :
    o.depth? stars = some r.usage ↔ depth = r.declared := by
  unfold cTree at ho
  by_cases hle : r.usage ≤ r.declared
  · rw [if_pos hle] at ho
    obtain rfl := Option.some.inj ho
    rw [C.Tree.depth_derefs h]
    by_cases hdepth : r.declared - r.usage ≤ depth
    · rw [if_pos hdepth, Option.some.injEq]
      omega
    · rw [if_neg hdepth]
      constructor
      · intro hnone
        exact nomatch hnone
      · intro heq
        omega
  · rw [if_neg hle] at ho
    by_cases husage : r.usage = r.declared + 1
    · rw [if_pos husage] at ho
      obtain rfl := Option.some.inj ho
      rw [C.Tree.depth?, C.Tree.depth?, h, husage, Option.map_some, Option.some.injEq]
      omega
    · rw [if_neg husage] at ho
      exact nomatch ho

/-! ### Functions -/

namespace Function

/-- The base type and the stars that C fixes for the first two parameters of `main`, if that
    returns a plain number. -/
def fixedType? (f : Function) (v : Variable) : Option (String × Nat) :=
  if f.name = "main" ∧ f.returns = ⟨.int, 0⟩ then
    if f.params[0]? = some v then some ("int", 0)
    else if f.params[1]? = some v then some ("char", 2)
    else none
  else none

/-- A declarator for a variable of the function: it has as many stars as the variable is
    deep, unless C fixes its type. -/
structure Declares (f : Function) (v : Variable) (dec : C.Declarator) : Prop where
  name_eq : dec.name = v.name
  fixed : ∀ base stars, f.fixedType? v = some (base, stars) → dec.base = base ∧ dec.depth = stars
  free : f.fixedType? v = none → dec.depth = v.type.depth

variable {f : Function} {v : Variable}

theorem declares_fixed {base : String} {stars : Nat} (h : f.fixedType? v = some (base, stars)) :
    f.Declares v ⟨base, stars, v.name⟩ := by
  refine ⟨rfl, fun base' stars' h' => ?_, fun hnone => ?_⟩
  · rw [h] at h'
    cases h'
    exact ⟨rfl, rfl⟩
  · rw [h] at hnone
    cases hnone

theorem declares_free (h : f.fixedType? v = none) : f.Declares v v.cDeclarator := by
  refine ⟨rfl, fun base stars h' => ?_, fun _ => rfl⟩
  rw [h] at h'
  cases h'

/-- The declarator has the stars that its variable asks for unless C fixes another number. -/
theorem Declares.depth_eq_iff {dec : C.Declarator} (h : f.Declares v dec) :
    dec.depth = v.type.depth ↔
      ∀ base stars, f.fixedType? v = some (base, stars) → stars = v.type.depth := by
  cases htype : f.fixedType? v with
  | none => simp [h.free htype]
  | some type =>
    obtain ⟨base, stars⟩ := type
    rw [(h.fixed base stars htype).2]
    constructor
    · rintro heq base' stars' ⟨⟩
      exact heq
    · intro hall
      exact hall base stars rfl

theorem fixedType?_of_not_mem (h : v ∉ f.params) : f.fixedType? v = none := by
  have hat : ∀ i : Nat, f.params[i]? ≠ some v := fun i hi => h (List.mem_of_getElem? hi)
  rw [fixedType?, if_neg (hat 0), if_neg (hat 1), ite_self]

/-- Parameters of an entry point: the first two are fixed, the others are not. -/
theorem declares_entryDeclarators (hentry : f.name = "main" ∧ f.returns = ⟨.int, 0⟩)
    (hdistinct : f.params.Nodup) :
    List.Forall₂ f.Declares f.params (entryDeclarators f.params) := by
  have htype : ∀ v, f.fixedType? v = if f.params[0]? = some v then some ("int", 0)
      else if f.params[1]? = some v then some ("char", 2) else none := fun v => if_pos hentry
  rcases hparams : f.params with _ | ⟨count, _ | ⟨strings, vs⟩⟩
  · exact .nil
  · rw [hparams] at htype
    exact .cons (declares_fixed (by simp [htype])) .nil
  · rw [hparams] at htype hdistinct
    obtain ⟨hcount, hrest⟩ := List.nodup_cons.1 hdistinct
    obtain ⟨hstrings, -⟩ := List.nodup_cons.1 hrest
    have hne : count ≠ strings := fun heq => hcount (heq ▸ List.mem_cons_self)
    refine .cons (declares_fixed (by simp [htype]))
      (.cons (declares_fixed (by simp [htype, hne])) ?_)
    rw [List.forall₂_map_right_iff, List.forall₂_same]
    intro v hv
    have hne₀ : count ≠ v := fun heq => hcount (heq ▸ List.mem_cons_of_mem _ hv)
    have hne₁ : strings ≠ v := fun heq => hstrings (heq ▸ hv)
    exact declares_free (by simp [htype, hne₀, hne₁])

theorem declares_cDeclarators (hnodup : (f.params.map Variable.name).Nodup) :
    List.Forall₂ f.Declares f.params f.cDeclarators := by
  have hiff : f.isEntryPoint = true ↔ f.name = "main" ∧ f.returns = ⟨.int, 0⟩ := by
    simp [isEntryPoint]
  rw [cDeclarators]
  by_cases hentry : f.isEntryPoint = true
  · rw [if_pos hentry]
    exact declares_entryDeclarators (hiff.1 hentry) (List.Nodup.of_map _ hnodup)
  · rw [if_neg hentry, List.forall₂_map_right_iff, List.forall₂_same]
    exact fun v _ => declares_free (if_neg (mt hiff.2 hentry))

end Function

theorem Function.exists_declares {f : Function} {vs : List Variable} {decs : List C.Declarator}
    (h : List.Forall₂ f.Declares vs decs) {v : Variable} (hv : v ∈ vs) :
    ∃ dec ∈ decs, f.Declares v dec := by
  induction h with
  | nil => cases hv
  | cons hfirst _ ih =>
    rcases List.mem_cons.1 hv with rfl | hv
    · exact ⟨_, List.mem_cons_self, hfirst⟩
    · obtain ⟨dec, hdec, hdeclares⟩ := ih hv
      exact ⟨dec, List.mem_cons_of_mem _ hdec, hdeclares⟩

/-- The declarators that C reads in a function are those of its variables, in their order. -/
theorem Function.Scoped.declares {f : Function} (h : f.Scoped) :
    List.Forall₂ f.Declares (f.params ++ f.locals)
      (f.cDeclarators ++ f.locals.map Variable.cDeclarator) := by
  have hnodup := h.distinct
  rw [List.map_append, List.nodup_append] at hnodup
  obtain ⟨hparams, -, hdisjoint⟩ := hnodup
  refine List.rel_append (declares_cDeclarators hparams) ?_
  rw [List.forall₂_map_right_iff, List.forall₂_same]
  intro v hv
  refine declares_free (fixedType?_of_not_mem fun hparam => ?_)
  exact hdisjoint _ (List.mem_map_of_mem hparam) _ (List.mem_map_of_mem hv) rfl

/-- Each function of a compiled source has one declarator for each of its variables in its C
    definition, with as many stars as the variable is deep, or with the type that C fixes for
    it.  The variables occur in the definition as they are met in the function.  A use with
    some number of markers denotes a value of this pointer depth exactly if the stars of the
    declarator are as many as the variable is deep, so unless C fixes another number. -/
theorem compileText_pointerDepth {text : String} {options : Options} {c : Compilation}
    (h : compileText text options = .ok c) {f : Function} (hf : f ∈ c.program.functions) :
    ∃ before after d, c.cSource = before ++ f.cDefinition ++ after ∧
      C.definition f.cDefinition = some d ∧
      (d.declarators.map C.Declarator.name).Nodup ∧
      List.Forall₂ f.Declares (f.params ++ f.locals) d.declarators ∧
      List.Forall₂
        (fun r o => r.cTree = some o ∧
          ∃ dec ∈ d.declarators, f.Declares r.decl dec ∧
            (o.depth? d.stars = some r.usage ↔ dec.depth = r.declared) ∧
            (dec.depth = r.declared ↔
              ∀ base stars, f.fixedType? r.decl = some (base, stars) → stars = r.declared))
        (Mention.used (Statement.walkAll f.body)) d.occurrences := by
  obtain ⟨hscoped, before, after, d, hcontains, hd, hparams, hmirrors⟩ :=
    exists_definition_of_compileText h hf
  have hdeclarators : d.declarators = f.cDeclarators ++ f.locals.map Variable.cDeclarator := by
    rw [C.Definition.declarators, hparams, hmirrors.declarators, hscoped.locals_eq]
  have hdeclares : List.Forall₂ f.Declares (f.params ++ f.locals) d.declarators :=
    hdeclarators ▸ hscoped.declares
  have hnames : (d.declarators.map C.Declarator.name).Nodup := by
    have hnodup := hscoped.distinct
    rw [List.map_append] at hnodup
    rw [hdeclarators, List.map_append, f.name_cDeclarators, List.map_map]
    exact hnodup
  refine ⟨before, after, d, hcontains, hd, hnames, hdeclares, ?_⟩
  have hall := (List.forall₂_and_left _ _).2 ⟨fun r hr => hscoped.decl_mem hr, hmirrors.occur⟩
  apply hall.imp
  rintro r o ⟨hdecl, ho⟩
  obtain ⟨dec, hdec, hdeclared⟩ := Function.exists_declares hdeclares hdecl
  have hstars : d.stars r.name = some dec.depth := by
    rw [Reference.name, ← hdeclared.name_eq]
    exact C.Definition.stars_of_mem hnames hdec
  exact ⟨ho, dec, hdec, hdeclared, r.depth_cTree ho hstars, hdeclared.depth_eq_iff⟩

theorem compileText_pointerDepth_sample :
    ∃ c, compileText Sample.text ⟨false, false, none, false⟩ = .ok c ∧
      Sample.f ∈ c.program.functions ∧
      ∃ d, C.definition Sample.f.cDefinition = some d ∧
        d.occurrences.map (C.Tree.depth? d.stars) = [some 0, some 0, some 2] := by
  obtain ⟨c, hcompile, hfunctions⟩ := Sample.exists_compileText
  have hmem : Sample.f ∈ c.program.functions := hfunctions ▸ List.mem_singleton_self _
  obtain ⟨-, -, d, -, hd, -, -, hall⟩ := compileText_pointerDepth hcompile hmem
  refine ⟨c, hcompile, hmem, d, hd, ?_⟩
  -- the variable that is set, the dereferenced parameter and its address
  have hfree : ∀ v n, ∀ base stars, Sample.f.fixedType? v = some (base, stars) → stars = n := by
    intro v n base stars htype
    cases htype
  generalize d.occurrences = occurrences at hall ⊢
  rcases hall with - | ⟨⟨-, _, -, -, hn, hn'⟩, hall⟩
  rcases hall with - | ⟨⟨-, _, -, -, hp, hp'⟩, hall⟩
  rcases hall with - | ⟨⟨-, _, -, -, hq, hq'⟩, hall⟩
  rcases hall with - | _
  simp [hn.2 (hn'.2 (hfree _ _)), hp.2 (hp'.2 (hfree _ _)), hq.2 (hq'.2 (hfree _ _))]

/-! ### A parameter whose type C fixes -/

namespace Entry

/-- An entry point whose first parameter is declared as a pointer. -/
def text : String :=
  "fun main(p : ^int) : int \x7b return p; \x7d"

def p : Variable :=
  ⟨"p", ⟨.int, 1⟩, ⟨1, 10⟩⟩

def f : Function :=
  ⟨"main", ⟨.int, 0⟩, [p], [],
    [.ret (some (.single (Sample.plain (.var ⟨p, 0, ⟨1, 35⟩⟩)))) ⟨1, 28⟩], ⟨1, 1⟩⟩

/-- What is written for the function. -/
def cText : String :=
  "int main(int p) \x7b\n    return *p;\n\x7d\n"

theorem cDefinition_f : f.cDefinition = cText := by
  decide +kernel

theorem definition_cText : C.definition cText = some ⟨⟨"int", 0, "main"⟩, [⟨"int", 0, "p"⟩],
    [.enter, .eval (.unary .deref (.word "p")), .leave]⟩ := by
  decide +kernel

end Entry

/-- The parameter is a pointer that is used without markers, but in C it is a number, and
    it is dereferenced. -/
theorem compileText_not_pointerDepth :
    ∃ c before d, compileText Entry.text ⟨false, false, none, false⟩ = .ok c ∧
      c.program.functions = [Entry.f] ∧ c.cSource = before ++ Entry.f.cDefinition ∧
      C.definition Entry.f.cDefinition = some d ∧
      Mention.used (Statement.walkAll Entry.f.body) = [⟨Entry.p, 0, ⟨1, 35⟩⟩] ∧
      Entry.p.type.depth = 1 ∧ d.declarators = [⟨"int", 0, "p"⟩] ∧
      d.occurrences = [.unary .deref (.word "p")] ∧
      d.occurrences.map (C.Tree.depth? d.stars) = [none] := by
  have hcompile : compileText Entry.text ⟨false, false, none, false⟩ = .ok ⟨⟨[], [Entry.f]⟩,
      "#include <stdio.h>\n#include <stdlib.h>\n#include <stdint.h>\n\nint main(int p);\n\n" ++
        Entry.cText⟩ := by
    decide +kernel
  rw [Entry.cDefinition_f]
  exact ⟨_, _, _, hcompile, rfl, rfl, Entry.definition_cText, rfl, rfl, rfl, rfl, rfl⟩

end Shc
