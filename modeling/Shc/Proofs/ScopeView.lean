import Shc.Scope

/-!
# A scope as a list of variables

The index of a scope is a table from names to places in two lists.  As long as
the table and the lists agree, looking a name up means searching the variables
declared so far, and a name is taken exactly if one of them has it.  Both ways of
declaring keep the agreement, by one argument: they add one variable in a new
place, under a name that was free.
-/

namespace Shc.Scope

/-- All variables of a scope, the parameters first. -/
def vars (s : Scope) : List Variable :=
  s.params ++ s.locals

/-- The table and the lists agree: a name leads to a variable of that name, and the
    place of a variable is found under its name. -/
structure Indexed (s : Scope) : Prop where
  sound : ∀ {name slot}, s.names[name]? = some slot → ∃ v, s.get? slot = some v ∧ v.name = name
  complete : ∀ {slot v}, s.get? slot = some v → s.names[v.name]? = some slot

theorem indexed_empty : empty.Indexed where
  sound := by
    intro name slot h
    simp [empty] at h
  complete := by
    intro slot v h
    cases slot <;> simp [empty, get?] at h

theorem getElem?_insert (names : Std.TreeMap String Slot) (taken name : String) (slot : Slot) :
    (names.insert taken slot)[name]? = if taken = name then some slot else names[name]? := by
  simp [Std.TreeMap.getElem?_insert]

/-- One more variable in a new place, under a free name. -/
theorem Indexed.extend {s s' : Scope} {v : Variable} {new : Slot} (hs : s.Indexed)
    (hfree : s.names[v.name]? = none) (hnew : s.get? new = none)
    (hnames : s'.names = s.names.insert v.name new)
    (hget : ∀ slot, s'.get? slot = if slot = new then some v else s.get? slot) : s'.Indexed where
  sound := by
    intro name slot h
    rw [hnames, getElem?_insert] at h
    by_cases hname : v.name = name
    · rw [if_pos hname, Option.some.injEq] at h
      subst h
      exact ⟨v, by rw [hget, if_pos rfl], hname⟩
    · rw [if_neg hname] at h
      obtain ⟨w, hw, hwname⟩ := hs.sound h
      have hne : slot ≠ new := by
        rintro rfl
        rw [hnew] at hw
        exact absurd hw (by simp)
      exact ⟨w, by rw [hget, if_neg hne, hw], hwname⟩
  complete := by
    intro slot w h
    rw [hget] at h
    rw [hnames, getElem?_insert]
    by_cases hslot : slot = new
    · rw [if_pos hslot, Option.some.injEq] at h
      subst h
      rw [if_pos rfl, hslot]
    · rw [if_neg hslot] at h
      have hold := hs.complete h
      have hne : v.name ≠ w.name := by
        intro heq
        rw [← heq, hfree] at hold
        exact absurd hold (by simp)
      rw [if_neg hne, hold]

/-! ### Looking names up -/

theorem mem_vars_iff {s : Scope} {v : Variable} : v ∈ s.vars ↔ ∃ slot, s.get? slot = some v := by
  rw [vars, List.mem_append, List.mem_iff_getElem?, List.mem_iff_getElem?]
  constructor
  · rintro (⟨i, hi⟩ | ⟨i, hi⟩)
    · exact ⟨.param i, hi⟩
    · exact ⟨.localVar i, hi⟩
  · rintro ⟨slot, hslot⟩
    cases slot with
    | param i => exact .inl ⟨i, hslot⟩
    | localVar i => exact .inr ⟨i, hslot⟩

theorem Indexed.find?_eq_some_iff {s : Scope} (hs : s.Indexed) {name : String} {v : Variable} :
    s.find? name = some v ↔ v ∈ s.vars ∧ v.name = name := by
  rw [find?, Option.bind_eq_some_iff]
  constructor
  · rintro ⟨slot, hslot, hv⟩
    obtain ⟨w, hw, hname⟩ := hs.sound hslot
    have hwv : w = v := Option.some.inj (hw.symm.trans hv)
    exact ⟨mem_vars_iff.2 ⟨slot, hv⟩, hwv ▸ hname⟩
  · rintro ⟨hmem, rfl⟩
    obtain ⟨slot, hslot⟩ := mem_vars_iff.1 hmem
    exact ⟨slot, hs.complete hslot, hslot⟩

theorem Indexed.contains_iff {s : Scope} (hs : s.Indexed) {name : String} :
    s.names.contains name = true ↔ name ∈ s.vars.map Variable.name := by
  rw [Std.TreeMap.contains_eq_isSome_getElem?, Option.isSome_iff_exists, List.mem_map]
  constructor
  · rintro ⟨slot, hslot⟩
    obtain ⟨v, hv, hname⟩ := hs.sound hslot
    exact ⟨v, mem_vars_iff.2 ⟨slot, hv⟩, hname⟩
  · rintro ⟨v, hmem, rfl⟩
    obtain ⟨slot, hslot⟩ := mem_vars_iff.1 hmem
    exact ⟨slot, hs.complete hslot⟩

/-- A name denotes a variable exactly if some variable has that name. -/
theorem Indexed.exists_find?_iff {s : Scope} (hs : s.Indexed) {name : String} :
    (∃ v, s.find? name = some v) ↔ name ∈ s.vars.map Variable.name := by
  simp only [hs.find?_eq_some_iff, List.mem_map]

/-- No two variables of a scope have the same name. -/
theorem Indexed.nodup_names {s : Scope} (hs : s.Indexed) :
    (s.vars.map Variable.name).Nodup := by
  have hparam : ∀ {i : Nat} {v : Variable}, s.params[i]? = some v →
      s.names[v.name]? = some (Slot.param i) := fun h => hs.complete h
  have hlocal : ∀ {i : Nat} {v : Variable}, s.locals[i]? = some v →
      s.names[v.name]? = some (Slot.localVar i) := fun h => hs.complete h
  rw [vars, List.map_append, List.nodup_append]
  refine ⟨?_, ?_, ?_⟩
  · rw [List.nodup_iff_pairwise_ne, List.pairwise_map, List.pairwise_iff_getElem]
    intro i j hi hj hij heq
    have hsame := hparam (List.getElem?_eq_getElem hi)
    rw [heq, hparam (List.getElem?_eq_getElem hj)] at hsame
    simp only [Option.some.injEq, Slot.param.injEq] at hsame
    omega
  · rw [List.nodup_iff_pairwise_ne, List.pairwise_map, List.pairwise_iff_getElem]
    intro i j hi hj hij heq
    have hsame := hlocal (List.getElem?_eq_getElem hi)
    rw [heq, hlocal (List.getElem?_eq_getElem hj)] at hsame
    simp only [Option.some.injEq, Slot.localVar.injEq] at hsame
    omega
  · intro name hname other hother heq
    obtain ⟨v, hv, rfl⟩ := List.mem_map.1 hname
    obtain ⟨w, hw, rfl⟩ := List.mem_map.1 hother
    obtain ⟨i, hi⟩ := List.mem_iff_getElem?.1 hv
    obtain ⟨j, hj⟩ := List.mem_iff_getElem?.1 hw
    have hsame := hparam hi
    rw [heq, hlocal hj] at hsame
    simp at hsame

/-! ### Declaring -/

theorem Indexed.getElem?_eq_none {s : Scope} (hs : s.Indexed) {name : String}
    (h : name ∉ s.vars.map Variable.name) : s.names[name]? = none := by
  rw [← hs.contains_iff, Std.TreeMap.contains_eq_isSome_getElem?] at h
  simpa using h

theorem getElem?_concat_eq (vs : List Variable) (v : Variable) (i : Nat) :
    (vs ++ [v])[i]? = if i = vs.length then some v else vs[i]? := by
  rcases Nat.lt_trichotomy i vs.length with h | h | h
  · rw [List.getElem?_append_left h, if_neg (by omega)]
  · simp [h]
  · rw [if_neg (by omega), List.getElem?_eq_none (by simp; omega),
      List.getElem?_eq_none (by omega)]

theorem Indexed.declareParam?_of_notMem {s : Scope} (hs : s.Indexed) {v : Variable}
    (hfree : v.name ∉ s.vars.map Variable.name) :
    ∃ s', s.declareParam? v = some s' ∧ s'.Indexed ∧ s'.params = s.params ++ [v] ∧
      s'.locals = s.locals := by
  have hcontains := mt hs.contains_iff.1 hfree
  refine ⟨_, if_neg hcontains, ?_, rfl, rfl⟩
  refine hs.extend (hs.getElem?_eq_none hfree) ?_ rfl ?_
  · simp [get?]
  · rintro (i | i)
    · simp [get?, getElem?_concat_eq]
    · simp [get?]

theorem Indexed.declareLocal?_of_notMem {s : Scope} (hs : s.Indexed) {v : Variable}
    (hfree : v.name ∉ s.vars.map Variable.name) :
    ∃ s', s.declareLocal? v = some s' ∧ s'.Indexed ∧ s'.params = s.params ∧
      s'.locals = s.locals ++ [v] := by
  have hcontains := mt hs.contains_iff.1 hfree
  refine ⟨_, if_neg hcontains, ?_, rfl, rfl⟩
  refine hs.extend (hs.getElem?_eq_none hfree) ?_ rfl ?_
  · simp [get?]
  · rintro (i | i)
    · simp [get?]
    · simp [get?, getElem?_concat_eq]

/-- A parameter was declared because its name was free. -/
theorem Indexed.notMem_of_declareParam? {s s' : Scope} (hs : s.Indexed) {v : Variable}
    (h : s.declareParam? v = some s') : v.name ∉ s.vars.map Variable.name := by
  rw [declareParam?] at h
  rw [← hs.contains_iff]
  intro htaken
  simp [htaken] at h

theorem Indexed.notMem_of_declareLocal? {s s' : Scope} (hs : s.Indexed) {v : Variable}
    (h : s.declareLocal? v = some s') : v.name ∉ s.vars.map Variable.name := by
  rw [declareLocal?] at h
  rw [← hs.contains_iff]
  intro htaken
  simp [htaken] at h

end Shc.Scope
