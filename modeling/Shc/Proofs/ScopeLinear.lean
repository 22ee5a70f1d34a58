import Shc.Proofs.ScopeView
import Shc.Scope.Calls

/-!
# A scope answers as two lists would

The index of a scope saves a search and must never show.  `Linear` is a scope without one:
it has the two lists only, and searches them from the front whenever it is asked.  Whatever
calls a new scope gets, it answers each of them as the linear scope does, and both hold the
same variables.  One call is enough to look at, since it keeps the index in agreement with
the lists.
-/

namespace Shc.Scope

/-! ### Scopes without an index -/

/-- The parameters and the locals declared so far. -/
structure Linear where
  params : List Variable
  locals : List Variable

namespace Linear

/-- The scope without variables. -/
def empty : Linear :=
  ⟨[], []⟩

/-- All variables, the parameters first. -/
def vars (s : Linear) : List Variable :=
  s.params ++ s.locals

/-- The answer to one call, and the scope after it. -/
def call (s : Linear) : Call → Answer × Linear
  | .param v =>
    if v.name ∈ s.vars.map Variable.name then (.declared false, s)
    else (.declared true, { s with params := s.params ++ [v] })
  | .localVar v =>
    if v.name ∈ s.vars.map Variable.name then (.declared false, s)
    else (.declared true, { s with locals := s.locals ++ [v] })
  | .lookup name => (.found (s.vars.find? (·.name = name)), s)

/-- The scope after some calls, and what was answered to each of them. -/
def calls (s : Linear) : List Call → List (Call × Answer) × Linear
  | [] => ([], s)
  | c :: cs => ((c, (s.call c).1) :: ((s.call c).2.calls cs).1, ((s.call c).2.calls cs).2)

end Linear

/-- A scope without its index. -/
def linear (s : Scope) : Linear :=
  ⟨s.params, s.locals⟩

/-! ### One call -/

section

variable {s : Scope}

theorem Indexed.declareParam?_of_mem (hs : s.Indexed) {v : Variable}
    (htaken : v.name ∈ s.vars.map Variable.name) : s.declareParam? v = none := by
  rw [declareParam?, if_pos (hs.contains_iff.2 htaken)]

theorem Indexed.declareLocal?_of_mem (hs : s.Indexed) {v : Variable}
    (htaken : v.name ∈ s.vars.map Variable.name) : s.declareLocal? v = none := by
  rw [declareLocal?, if_pos (hs.contains_iff.2 htaken)]

/-- A name is looked up as by a search through the variables. -/
theorem Indexed.find?_eq (hs : s.Indexed) (name : String) :
    s.find? name = s.vars.find? (·.name = name) := by
  cases hfound : s.find? name with
  | some v =>
    obtain ⟨hmem, rfl⟩ := hs.find?_eq_some_iff.1 hfound
    cases hsearch : s.vars.find? (·.name = v.name) with
    | none => exact absurd (by simp) (List.find?_eq_none.1 hsearch v hmem)
    | some w =>
      -- what the search meets first is the only variable of that name
      have hw := hs.find?_eq_some_iff.2
        ⟨List.mem_of_find?_eq_some hsearch, by simpa using List.find?_some hsearch⟩
      exact hfound.symm.trans hw
  | none =>
    symm
    rw [List.find?_eq_none]
    intro v hmem hname
    rw [hs.find?_eq_some_iff.2 ⟨hmem, by simpa using hname⟩] at hfound
    cases hfound

/-- One call keeps the agreement, and the linear scope answers it in the same way. -/
theorem Indexed.call (hs : s.Indexed) (c : Call) :
    (s.call c).2.Indexed ∧ s.linear.call c = ((s.call c).1, (s.call c).2.linear) := by
  cases c with
  | param v =>
    by_cases htaken : v.name ∈ s.vars.map Variable.name
    · rw [Scope.call, hs.declareParam?_of_mem htaken]
      exact ⟨hs, if_pos htaken⟩
    · obtain ⟨s', hs', hindexed, hparams, hlocals⟩ := hs.declareParam?_of_notMem htaken
      rw [Scope.call, hs']
      refine ⟨hindexed, (if_neg htaken).trans ?_⟩
      simp [settle, linear, hparams, hlocals]
  | localVar v =>
    by_cases htaken : v.name ∈ s.vars.map Variable.name
    · rw [Scope.call, hs.declareLocal?_of_mem htaken]
      exact ⟨hs, if_pos htaken⟩
    · obtain ⟨s', hs', hindexed, hparams, hlocals⟩ := hs.declareLocal?_of_notMem htaken
      rw [Scope.call, hs']
      refine ⟨hindexed, (if_neg htaken).trans ?_⟩
      simp [settle, linear, hparams, hlocals]
  | lookup name =>
    rw [Scope.call, hs.find?_eq]
    exact ⟨hs, rfl⟩

end

/-! ### Any calls -/

theorem Indexed.calls {s : Scope} (hs : s.Indexed) (cs : List Call) :
    (s.calls cs).2.Indexed ∧ s.linear.calls cs = ((s.calls cs).1, (s.calls cs).2.linear) := by
  induction cs generalizing s with
  | nil => exact ⟨hs, rfl⟩
  | cons c cs ih =>
    obtain ⟨hindexed, hcall⟩ := hs.call c
    obtain ⟨hlast, hcalls⟩ := ih hindexed
    refine ⟨hlast, ?_⟩
    rw [Linear.calls, hcall, hcalls]
    rfl

def Call.param? : Call → Option Variable
  | .param v => some v
  | _ => none

def Call.local? : Call → Option Variable
  | .localVar v => some v
  | _ => none

/-- The variables that were declared, in the order of the calls; `own` gives those that are
    looked for. -/
def accepted (own : Call → Option Variable) (log : List (Call × Answer)) : List Variable :=
  log.filterMap fun entry => if entry.2 = .declared true then own entry.1 else none

theorem accepted_cons (own : Call → Option Variable) (entry : Call × Answer)
    (log : List (Call × Answer)) :
    accepted own (entry :: log) = accepted own [entry] ++ accepted own log := by
  rw [accepted, ← List.singleton_append, List.filterMap_append]
  rfl

/-- A call adds to a list exactly the variable that it declares there. -/
theorem Linear.call_lists (s : Linear) (c : Call) :
    (s.call c).2.params = s.params ++ accepted Call.param? [(c, (s.call c).1)] ∧
      (s.call c).2.locals = s.locals ++ accepted Call.local? [(c, (s.call c).1)] := by
  cases c with
  | param v =>
    rw [call]
    split <;> simp [accepted, Call.param?, Call.local?]
  | localVar v =>
    rw [call]
    split <;> simp [accepted, Call.param?, Call.local?]
  | lookup name => simp [call, accepted]

theorem Linear.calls_lists (s : Linear) (cs : List Call) :
    (s.calls cs).2.params = s.params ++ accepted Call.param? (s.calls cs).1 ∧
      (s.calls cs).2.locals = s.locals ++ accepted Call.local? (s.calls cs).1 := by
  induction cs generalizing s with
  | nil => simp [calls, accepted]
  | cons c cs ih =>
    obtain ⟨hparams, hlocals⟩ := s.call_lists c
    obtain ⟨hparams', hlocals'⟩ := ih (s.call c).2
    simp only [calls]
    rw [accepted_cons Call.param?, accepted_cons Call.local?]
    exact ⟨by rw [hparams', hparams, List.append_assoc],
      by rw [hlocals', hlocals, List.append_assoc]⟩

/-! ### What a scope does next -/

/-- The next call is answered as the two lists say: a declaration is accepted exactly if no
    variable has its name, and then it adds to its own list only; a name denotes the one
    variable that has it. -/
structure Determined (s : Scope) : Prop where
  distinct : (s.vars.map Variable.name).Nodup
  param_free : ∀ v, v.name ∉ s.vars.map Variable.name →
    (s.call (.param v)).1 = .declared true ∧
      (s.call (.param v)).2.parts = (s.params ++ [v], s.locals)
  param_taken : ∀ v, v.name ∈ s.vars.map Variable.name →
    s.call (.param v) = (.declared false, s)
  local_free : ∀ v, v.name ∉ s.vars.map Variable.name →
    (s.call (.localVar v)).1 = .declared true ∧
      (s.call (.localVar v)).2.parts = (s.params, s.locals ++ [v])
  local_taken : ∀ v, v.name ∈ s.vars.map Variable.name →
    s.call (.localVar v) = (.declared false, s)
  unique : ∀ v ∈ s.vars, ∀ w ∈ s.vars, v.name = w.name → v = w
  found_some : ∀ name v,
    s.call (.lookup name) = (.found (some v), s) ↔ v ∈ s.vars ∧ v.name = name
  found_none : ∀ name,
    s.call (.lookup name) = (.found none, s) ↔ ∀ v ∈ s.vars, v.name ≠ name

theorem Indexed.determined {s : Scope} (hs : s.Indexed) : s.Determined where
  distinct := hs.nodup_names
  param_free := by
    intro v hfree
    obtain ⟨s', hs', -, hparams, hlocals⟩ := hs.declareParam?_of_notMem hfree
    rw [Scope.call, hs']
    simp [settle, parts, hparams, hlocals]
  param_taken := by
    intro v htaken
    rw [Scope.call, hs.declareParam?_of_mem htaken]
    rfl
  local_free := by
    intro v hfree
    obtain ⟨s', hs', -, hparams, hlocals⟩ := hs.declareLocal?_of_notMem hfree
    rw [Scope.call, hs']
    simp [settle, parts, hparams, hlocals]
  local_taken := by
    intro v htaken
    rw [Scope.call, hs.declareLocal?_of_mem htaken]
    rfl
  unique := by
    intro v hv w hw hname
    have hfound := hs.find?_eq_some_iff.2 ⟨hv, hname⟩
    rw [hs.find?_eq_some_iff.2 ⟨hw, rfl⟩] at hfound
    exact (Option.some.inj hfound).symm
  found_some := by
    intro name v
    rw [← hs.find?_eq_some_iff, Scope.call]
    simp
  found_none := by
    intro name
    rw [Scope.call, hs.find?_eq]
    simp

/-- Whatever calls a new scope gets, in any order, it answers each of them as a scope without
    an index does.  After them its names are distinct, its lists hold the variables that were
    accepted, in the order of the calls, and they alone decide what the next call does. -/
theorem calls_eq_linear (cs : List Call) :
    Linear.empty.calls cs = ((empty.calls cs).1, (empty.calls cs).2.linear) ∧
      (empty.calls cs).2.parts =
        (accepted Call.param? (empty.calls cs).1, accepted Call.local? (empty.calls cs).1) ∧
      (empty.calls cs).2.Determined := by
  obtain ⟨hindexed, hcalls⟩ := indexed_empty.calls cs
  have hempty : Linear.empty.calls cs = ((empty.calls cs).1, (empty.calls cs).2.linear) := hcalls
  obtain ⟨hparams, hlocals⟩ := Linear.empty.calls_lists cs
  rw [hempty] at hparams hlocals
  exact ⟨hempty, Prod.ext hparams hlocals, hindexed.determined⟩

end Shc.Scope
