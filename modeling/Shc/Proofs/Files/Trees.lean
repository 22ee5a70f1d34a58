import Shc.Files.Store
import Shc.Proofs.Files.Paths

/-!
# What operations leave of a tree

Making a directory with those that lead to it changes a tree at places on the way to
the directory only, and only from nothing to a directory; it does so also if it fails.
Replacing a file changes one place.  A path that leads to a place in a tree leads there
in every tree that still has the directories of the first one.
-/

namespace Shc.Tree

theorem ok_bind {α β : Type} (a : α) (f : α → Except FileError β) : (Except.ok a >>= f) = f a :=
  rfl

/-! ### Putting an entry -/

theorem get?_put_self (t : Tree) {place : Place} (h : place ≠ []) (entry : Entry) :
    (t.put place entry).get? place = some entry := by
  have hnone : (t.entries.filter (·.1 ≠ place)).find? (·.1 = place) = none := by
    apply List.find?_eq_none.2
    intro e he
    simpa using (List.mem_filter.1 he).2
  rw [get?, if_neg h, put, List.find?_append, hnone]
  simp

theorem get?_put_of_ne (t : Tree) {place other : Place} (h : other ≠ place) (entry : Entry) :
    (t.put place entry).get? other = t.get? other := by
  have hfilter : (t.entries.filter (·.1 ≠ place)).find? (·.1 = other) =
      t.entries.find? (·.1 = other) := by
    rw [List.find?_filter]
    congr 1
    funext e
    by_cases he : e.1 = other
    · simp [he, h]
    · simp [he]
  have hlast : [(place, entry)].find? (·.1 = other) = none := by simp [Ne.symm h]
  rw [get?, get?, put, List.find?_append, hfilter, hlast, Option.or_none]

theorem ne_nil_of_get? {t : Tree} {place : Place} (h : t.get? place ≠ some .directory) :
    place ≠ [] := by
  rintro rfl
  exact h rfl

/-! ### Following paths -/

/-- Directories of one tree are directories of the other. -/
def DirsIn (t t' : Tree) : Prop :=
  ∀ place, t.get? place = some .directory → t'.get? place = some .directory

/-- Where one piece of a path leads. -/
inductive Leads : String → Place → Place → Prop where
  | idle {piece : String} {place : Place} : Path.isIdle piece = true → Leads piece place place
  | back {place : Place} : Leads ".." place place.dropLast
  | name {piece : String} {place : Place} :
      Path.IsName piece → Leads piece place (place ++ [piece])

theorem Leads.eq_of_isName {piece : String} {place place' : Place} (h : Leads piece place place')
    (hname : Path.IsName piece) : place' = place ++ [piece] := by
  cases h with
  | idle hidle => exact absurd (hname.1.symm.trans hidle) Bool.false_ne_true
  | back => exact absurd rfl hname.2
  | name _ => rfl

section

variable {t t' : Tree}

theorem follow_cons_eq_ok {piece : String} {pieces : List String} {place place' : Place}
    (h : t.follow (piece :: pieces) place = .ok place') :
    t.get? place = some .directory ∧
      ∃ next, Leads piece place next ∧ t.follow pieces next = .ok place' := by
  rw [follow] at h
  cases hget : t.get? place with
  | none =>
    rw [hget] at h
    exact nomatch h
  | some entry =>
    cases entry with
    | file bytes =>
      rw [hget] at h
      exact nomatch h
    | directory =>
      rw [hget] at h
      refine ⟨rfl, ?_⟩
      dsimp only at h
      split_ifs at h with hidle hback
      · exact ⟨place, .idle hidle, h⟩
      · subst hback
        exact ⟨place.dropLast, .back, h⟩
      · exact ⟨place ++ [piece], .name ⟨by simpa using hidle, hback⟩, h⟩

theorem follow_mono (hdirs : t.DirsIn t') {pieces : List String} {place place' : Place}
    (h : t.follow pieces place = .ok place') : t'.follow pieces place = .ok place' := by
  induction pieces generalizing place with
  | nil => exact h
  | cons piece pieces ih =>
    have hdir := (follow_cons_eq_ok h).1
    rw [follow, hdir] at h
    rw [follow, hdirs place hdir]
    dsimp only at h ⊢
    split_ifs at h ⊢ with hidle hback hlong
    · exact ih h
    · exact ih h
    · exact ih h

theorem follow_append_eq_ok {front back : List String} {place place' : Place}
    (h : t.follow (front ++ back) place = .ok place') :
    ∃ middle, t.follow front place = .ok middle ∧ t.follow back middle = .ok place' := by
  induction front generalizing place with
  | nil => exact ⟨place, rfl, h⟩
  | cons piece front ih =>
    have hdir := (follow_cons_eq_ok h).1
    rw [List.cons_append, follow, hdir] at h
    rw [follow, hdir]
    dsimp only at h ⊢
    split_ifs at h ⊢ with hidle hback hlong
    · exact ih h
    · exact ih h
    · exact ih h

/-- The last piece of a path leads from a directory. -/
theorem exists_leads {front : List String} {last : String} {place place' : Place}
    (h : t.follow (front ++ [last]) place = .ok place') :
    ∃ middle, t.follow front place = .ok middle ∧ t.get? middle = some .directory ∧
      Leads last middle place' := by
  obtain ⟨middle, hfront, hlast⟩ := follow_append_eq_ok h
  obtain ⟨hdir, next, hleads, hend⟩ := follow_cons_eq_ok hlast
  obtain rfl := Except.ok.inj hend
  exact ⟨middle, hfront, hdir, hleads⟩

theorem locate_eq_ok {p : Path} {place : Place} (h : t.locate p = .ok place) :
    t.follow p.pieces p.start = .ok place := by
  rw [locate] at h
  cases hfault : p.fault? with
  | some e =>
    rw [hfault] at h
    exact nomatch h
  | none =>
    rw [hfault] at h
    dsimp only at h
    split_ifs at h with hempty
    exact h

theorem locate_mono (hdirs : t.DirsIn t') {p : Path} {place : Place}
    (h : t.locate p = .ok place) : t'.locate p = .ok place := by
  have hfollow := follow_mono hdirs (locate_eq_ok h)
  rw [locate] at h ⊢
  cases hfault : p.fault? with
  | some e =>
    rw [hfault] at h
    exact nomatch h
  | none =>
    rw [hfault] at h
    dsimp only at h ⊢
    split_ifs at h ⊢ with hempty
    exact hfollow

theorem read_eq_ok_iff {p : Path} {bytes : List UInt8} :
    t.read p = .ok bytes ↔ ∃ place, t.locate p = .ok place ∧ t.get? place = some (.file bytes) := by
  rw [read]
  cases hlocate : t.locate p with
  | error e =>
    constructor
    · intro h
      exact nomatch h
    · rintro ⟨place, hplace, -⟩
      exact nomatch hplace
  | ok place =>
    rw [ok_bind]
    constructor
    · intro h
      refine ⟨place, rfl, ?_⟩
      split at h
      · exact nomatch h
      · exact nomatch h
      · rename_i hget
        rw [hget, Except.ok.inj h]
    · rintro ⟨_, hplace, hget⟩
      obtain rfl := Except.ok.inj hplace
      rw [hget]
      rfl

/-- What stands on the way to a place: directories, or what stands on the way to the start. -/
theorem get?_of_follow {pieces : List String} {place place' above : Place}
    (h : t.follow pieces place = .ok place') (habove : above <+: place') (hne : above ≠ place') :
    t.get? above = some .directory ∨ above <+: place ∧ above ≠ place := by
  induction pieces generalizing place with
  | nil =>
    obtain rfl := Except.ok.inj h
    exact .inr ⟨habove, hne⟩
  | cons piece pieces ih =>
    obtain ⟨hdir, next, hleads, hrest⟩ := follow_cons_eq_ok h
    rcases ih hrest with hget | ⟨hnext, hne'⟩
    · exact .inl hget
    · by_cases hplace : above = place
      · exact .inl (hplace ▸ hdir)
      · refine .inr ⟨?_, hplace⟩
        cases hleads with
        | idle _ => exact hnext
        | back => exact hnext.trans (List.dropLast_prefix place)
        | name _ => exact (List.prefix_concat_iff.1 hnext).resolve_left hne'

end

/-! ### Making directories -/

/-- The place lies on the way to a directory: some of the first steps lead to it. -/
def OnWay (t : Tree) (dir : Path) (place : Place) : Prop :=
  ∃ front, front <+: dir.steps ∧ t.follow front dir.start = .ok place

/-- At this place all is as it was, or there is a new directory, on the way to the given
    directory if one is given. -/
def Kept (dir : Option Path) (t t' : Tree) (place : Place) : Prop :=
  t'.get? place = t.get? place ∨
    t.get? place = none ∧ t'.get? place = some .directory ∧ ∃ d, dir = some d ∧ t'.OnWay d place

section

variable {dir : Option Path} {t t' t'' : Tree}

theorem dirsIn_of_kept (h : ∀ place, Kept dir t t' place) : t.DirsIn t' := by
  intro place hdir
  rcases h place with hsame | ⟨hnone, -, -⟩
  · exact hsame.trans hdir
  · exact absurd (hnone.symm.trans hdir) (by simp)

theorem DirsIn.trans (h : t.DirsIn t') (h' : t'.DirsIn t'') : t.DirsIn t'' :=
  fun place hdir => h' place (h place hdir)

theorem Kept.get?_eq_file {place : Place} (h : Kept dir t t' place) {bytes : List UInt8}
    (hfile : t.get? place = some (.file bytes)) : t'.get? place = some (.file bytes) := by
  rcases h with hsame | ⟨hnone, -, -⟩
  · exact hsame.trans hfile
  · exact absurd (hnone.symm.trans hfile) (by simp)

theorem Kept.trans {place : Place} (h : Kept dir t t' place) (hdirs : t'.DirsIn t'')
    (h' : Kept dir t' t'' place) : Kept dir t t'' place := by
  rcases h with hsame | ⟨hnone, hdir, d, hd, front, hfront, hfollow⟩
  · rwa [Kept, hsame] at h'
  · exact .inr ⟨hnone, hdirs place hdir, d, hd, front, hfront, follow_mono hdirs hfollow⟩

/-- Only the steps of the directory and their start matter. -/
theorem Kept.congr {p q : Path} (hsteps : p.steps = q.steps) (hstart : p.start = q.start)
    {place : Place} (h : Kept (some p) t t' place) : Kept (some q) t t' place := by
  rcases h with hsame | ⟨hnone, hdir, d, hd, front, hfront, hfollow⟩
  · exact .inl hsame
  · obtain rfl := Option.some.inj hd
    exact .inr ⟨hnone, hdir, q, rfl, front, hsteps ▸ hfront, hstart ▸ hfollow⟩

theorem kept_trans (h : ∀ place, Kept dir t t' place) (h' : ∀ place, Kept dir t' t'' place) :
    ∀ place, Kept dir t t'' place :=
  fun place => (h place).trans (dirsIn_of_kept h') (h' place)

end

theorem dirsIn_put {t : Tree} {place : Place} (h : t.get? place ≠ some .directory)
    (entry : Entry) : t.DirsIn (t.put place entry) := by
  intro other hother
  rw [t.get?_put_of_ne ?_, hother]
  rintro rfl
  exact h hother

theorem makeDir_eq_ok {t t' : Tree} {start : Place} {steps : List String}
    (h : t.makeDir start steps = .ok t') :
    ∃ place, t.follow steps start = .ok place ∧ t.get? place = none ∧
      t' = t.put place .directory := by
  rw [makeDir] at h
  cases hfollow : t.follow steps start with
  | error e =>
    rw [hfollow] at h
    exact nomatch h
  | ok place =>
    rw [hfollow, ok_bind] at h
    cases hget : t.get? place with
    | some entry =>
      rw [hget] at h
      exact nomatch h
    | none =>
      rw [hget] at h
      exact ⟨place, rfl, hget, (Except.ok.inj h).symm⟩

section

variable {p : Path}

theorem kept_ensureDir (t : Tree) {front : List String} (hfront : front <+: p.steps)
    (place : Place) : Kept (some p) t (t.ensureDir p.start front).2 place := by
  rw [ensureDir]
  cases hmake : t.makeDir p.start front with
  | error e => exact .inl rfl
  | ok t' =>
    obtain ⟨new, hfollow, hnone, rfl⟩ := makeDir_eq_ok hmake
    by_cases hplace : place = new
    · subst hplace
      have hget : t.get? place ≠ some .directory := by simp [hnone]
      have hself := t.get?_put_self (ne_nil_of_get? hget) .directory
      have hdirs := dirsIn_put hget .directory
      exact .inr ⟨hnone, hself, p, rfl, front, hfront, follow_mono hdirs hfollow⟩
    · exact .inl (t.get?_put_of_ne hplace _)

/-- One step of the recursion makes a directory, or those that lead to it and then it. -/
theorem kept_makeDirsBack (t : Tree) {back : List String} (hback : back.reverse <+: p.steps) :
    ∀ place, Kept (some p) t (t.makeDirsBack p.start back).2 place := by
  induction back generalizing t with
  | nil => exact fun _ => .inl rfl
  | cons step back ih =>
    have hshorter : back.reverse <+: p.steps := by
      refine List.IsPrefix.trans ?_ hback
      rw [List.reverse_cons]
      exact List.prefix_append _ _
    have hfirst := t.kept_ensureDir hback
    rw [makeDirsBack]
    split
    · rename_i t₁ hensure
      rw [hensure] at hfirst
      have hrest := kept_trans hfirst (ih t₁ hshorter)
      split
      · rename_i t₂ hmade
        rw [hmade] at hrest
        exact kept_trans hrest (t₂.kept_ensureDir hback)
      · rename_i hmade
        rw [hmade] at hrest
        exact hrest
    · exact hfirst

theorem kept_makeDirs (t : Tree) : ∀ place, Kept (some p) t (t.makeDirs p).2 place := by
  rw [makeDirs]
  cases p.fault? with
  | some e => exact fun _ => .inl rfl
  | none =>
    apply t.kept_makeDirsBack
    simp

end

/-! ### Replacing a file -/

theorem replace_eq_ok {t t' : Tree} {p : Path} {bytes : List UInt8}
    (h : t.replace p bytes = .ok t') :
    ∃ place, t.locate p = .ok place ∧ t.get? place ≠ some .directory ∧
      t' = t.put place (.file bytes) := by
  rw [replace] at h
  cases hlocate : t.locate p with
  | error e =>
    rw [hlocate] at h
    exact nomatch h
  | ok place =>
    rw [hlocate, ok_bind] at h
    refine ⟨place, rfl, ?_⟩
    split at h
    · exact nomatch h
    · rename_i hget
      exact ⟨hget, (Except.ok.inj h).symm⟩

theorem replaceIn_eq_ok {t t' : Tree} {dir p : Path} {text : String}
    (h : t.replaceIn dir p text = .ok t') :
    ∃ place, t.locate p = .ok place ∧ t.get? place ≠ some .directory ∧
      t' = t.put place (.file (Text.Utf8.encode text)) := by
  unfold replaceIn at h
  cases hroom : t.makeRoom dir with
  | error e =>
    rw [hroom] at h
    exact nomatch h
  | ok u =>
    rw [hroom] at h
    dsimp only at h
    cases hreplace : t.replace p (Text.Utf8.encode text) with
    | error e =>
      rw [hreplace] at h
      exact nomatch h
    | ok t₁ =>
      rw [hreplace] at h
      obtain rfl := Except.ok.inj h
      exact replace_eq_ok hreplace

end Shc.Tree
