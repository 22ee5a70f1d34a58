import Mathlib.Data.List.Forall2
import Shc.Syntax.Type

/-!
# Walks through a function

A walk through a function meets uses of variables and declarations, one after the
other.  The condition on walks is always that a use is justified by the variables
declared before it; what is used, and what justifies it, differs between
derivations, where a use is a name, and syntax trees, where it is a reference.
-/

namespace Shc

/-- What a walk meets: a use of something, or a declaration where it is complete. -/
inductive Mention (α : Type) where
  | use (a : α)
  | declare (v : Variable)

namespace Mention

variable {α : Type}

/-- The variables that are declared on a walk. -/
def declared : List (Mention α) → List Variable
  | [] => []
  | .use _ :: ms => declared ms
  | .declare v :: ms => v :: declared ms

@[simp] theorem declared_append (ms ns : List (Mention α)) :
    declared (ms ++ ns) = declared ms ++ declared ns := by
  induction ms with
  | nil => rfl
  | cons m ms ih => cases m <;> simp [declared, ih]

theorem declare_mem_of_mem_declared {v : Variable} {ms : List (Mention α)}
    (h : v ∈ declared ms) : .declare v ∈ ms := by
  induction ms with
  | nil => exact absurd h List.not_mem_nil
  | cons m ms ih =>
    cases m with
    | use a => exact List.mem_cons_of_mem _ (ih h)
    | declare w =>
      rcases List.mem_cons.1 h with rfl | hlater
      · exact List.mem_cons_self
      · exact List.mem_cons_of_mem _ (ih hlater)

@[simp] theorem declared_map_use (uses : List α) : declared (uses.map .use) = [] := by
  induction uses with
  | nil => rfl
  | cons a uses ih => simpa [declared] using ih

/-- What is used on a walk. -/
def used : List (Mention α) → List α
  | [] => []
  | .use a :: ms => a :: used ms
  | .declare _ :: ms => used ms

@[simp] theorem used_append (ms ns : List (Mention α)) : used (ms ++ ns) = used ms ++ used ns := by
  induction ms with
  | nil => rfl
  | cons m ms ih => cases m <;> simp [used, ih]

@[simp] theorem used_map_use (uses : List α) : used (uses.map .use) = uses := by
  induction uses with
  | nil => rfl
  | cons a uses ih => simpa [used] using ih

theorem exists_of_mem_used {a : α} {ms : List (Mention α)} (h : a ∈ used ms) :
    ∃ before after, ms = before ++ .use a :: after := by
  apply List.append_of_mem
  induction ms with
  | nil => exact absurd h List.not_mem_nil
  | cons m ms ih =>
    cases m with
    | use b =>
      rcases List.mem_cons.1 h with rfl | hlater
      · exact List.mem_cons_self
      · exact List.mem_cons_of_mem _ (ih hlater)
    | declare v => exact List.mem_cons_of_mem _ (ih h)

/-- Every use is justified by the variables known at the start and those declared
    before it. -/
def Bound (ok : List Variable → α → Prop) (known : List Variable) (ms : List (Mention α)) : Prop :=
  ∀ before a after, ms = before ++ .use a :: after → ok (known ++ declared before) a

section

variable {ok : List Variable → α → Prop} {known : List Variable}

@[simp] theorem bound_nil : Bound ok known [] := by
  intro before a after h
  simp at h

theorem bound_use_cons {a : α} {ms : List (Mention α)} :
    Bound ok known (.use a :: ms) ↔ ok known a ∧ Bound ok known ms := by
  constructor
  · intro h
    refine ⟨by simpa [declared] using h [] a ms rfl, ?_⟩
    intro before b after hsplit
    simpa [declared] using h (.use a :: before) b after (by simp [hsplit])
  · rintro ⟨hfirst, hrest⟩ before b after hsplit
    cases before with
    | nil =>
      simp only [List.nil_append, List.cons.injEq, use.injEq] at hsplit
      simpa [declared, ← hsplit.1] using hfirst
    | cons m before =>
      simp only [List.cons_append, List.cons.injEq] at hsplit
      simpa [declared, ← hsplit.1] using hrest before b after hsplit.2

theorem bound_declare_cons {v : Variable} {ms : List (Mention α)} :
    Bound ok known (.declare v :: ms) ↔ Bound ok (known ++ [v]) ms := by
  constructor
  · intro h before b after hsplit
    simpa [declared] using h (.declare v :: before) b after (by simp [hsplit])
  · intro h before b after hsplit
    cases before with
    | nil => simp at hsplit
    | cons m before =>
      simp only [List.cons_append, List.cons.injEq] at hsplit
      simpa [declared, ← hsplit.1] using h before b after hsplit.2

/-- The second part of a walk starts with what the first part declared. -/
theorem bound_append {ms ns : List (Mention α)} :
    Bound ok known (ms ++ ns) ↔ Bound ok known ms ∧ Bound ok (known ++ declared ms) ns := by
  induction ms generalizing known with
  | nil => simp [declared]
  | cons m ms ih =>
    cases m with
    | use a => rw [List.cons_append, bound_use_cons, bound_use_cons, ih, declared, and_assoc]
    | declare v =>
      rw [List.cons_append, bound_declare_cons, bound_declare_cons, ih, declared,
        List.append_assoc, List.singleton_append]

theorem bound_map_use {uses : List α} :
    Bound ok known (uses.map .use) ↔ ∀ a ∈ uses, ok known a := by
  induction uses with
  | nil => simp
  | cons a uses ih => rw [List.map_cons, bound_use_cons, ih, List.forall_mem_cons]

end

/-! ### Walks through what derivations stand for -/

section

variable {β : Type}

/-- The second walk meets what the first one meets, in the same order, apart from some
    uses that it leaves out.  Uses correspond as `same` says, and a declared variable
    becomes what `move` makes of it. -/
inductive Refines (same : α → β → Prop) (move : Variable → Variable) :
    List (Mention α) → List (Mention β) → Prop where
  | nil : Refines same move [] []
  | drop {a : α} {ms : List (Mention α)} {ns : List (Mention β)} :
      Refines same move ms ns → Refines same move (.use a :: ms) ns
  | use {a : α} {b : β} {ms : List (Mention α)} {ns : List (Mention β)} :
      same a b → Refines same move ms ns → Refines same move (.use a :: ms) (.use b :: ns)
  | declare {v : Variable} {ms : List (Mention α)} {ns : List (Mention β)} :
      Refines same move ms ns →
      Refines same move (.declare v :: ms) (.declare (move v) :: ns)

namespace Refines

variable {same : α → β → Prop} {move : Variable → Variable} {ms ms' : List (Mention α)}
  {ns ns' : List (Mention β)}

theorem append (h : Refines same move ms ns) (h' : Refines same move ms' ns') :
    Refines same move (ms ++ ms') (ns ++ ns') := by
  induction h with
  | nil => exact h'
  | drop _ ih => exact .drop ih
  | use hsame _ ih => exact .use hsame ih
  | declare _ ih => exact .declare ih

theorem drop_all (uses : List α) (h : Refines same move ms ns) :
    Refines same move (uses.map .use ++ ms) ns := by
  induction uses with
  | nil => exact h
  | cons a uses ih => exact .drop ih

theorem map_use {as : List α} {bs : List β} (h : List.Forall₂ same as bs) :
    Refines same move (as.map .use) (bs.map .use) := by
  induction h with
  | nil => exact .nil
  | cons hsame _ ih => exact .use hsame ih

theorem declared_eq (h : Refines same move ms ns) : declared ns = (declared ms).map move := by
  induction h with
  | nil => rfl
  | drop _ ih => exact ih
  | use _ _ ih => exact ih
  | declare _ ih => simp [declared, ih]

/-- What justifies the uses of the first walk justifies those of the second. -/
theorem bound {ok : List Variable → α → Prop} {ok' : List Variable → β → Prop}
    (hok : ∀ known a b, same a b → ok known a → ok' (known.map move) b)
    {known : List Variable} (h : Refines same move ms ns) (hbound : Bound ok known ms) :
    Bound ok' (known.map move) ns := by
  induction h generalizing known with
  | nil => exact bound_nil
  | drop _ ih => exact ih (bound_use_cons.1 hbound).2
  | use hsame _ ih =>
    obtain ⟨hfirst, hrest⟩ := bound_use_cons.1 hbound
    exact bound_use_cons.2 ⟨hok _ _ _ hsame hfirst, ih hrest⟩
  | declare _ ih =>
    have hrest := ih (bound_declare_cons.1 hbound)
    rw [List.map_append] at hrest
    exact bound_declare_cons.2 hrest

end Refines

end

end Mention

end Shc
