import Shc.Text.Lines

/-!
# Lines and their ends

`linesBy` goes through a text once and never looks back.  What it gives can also be said in
two steps: `segmentsBy` cuts the text behind every line feed, so that nothing is lost, and
`stripBy` then takes a line feed off the end of a piece and a carriage return in front of it.
-/

namespace Shc.Text

variable {α : Type} [DecidableEq α]

/-- The pieces of a text that line feeds end, each with its line feed, and what follows
    the last one. -/
def segmentsBy (lf : α) : List α → List (List α)
  | [] => []
  | c :: rest =>
    if c = lf then [c] :: segmentsBy lf rest
    else
      match segmentsBy lf rest with
      | [] => [[c]]
      | segment :: later => (c :: segment) :: later

/-- A piece without its line end. -/
def stripBy (cr lf : α) (segment : List α) : List α :=
  if segment.getLast? = some lf then
    if segment.dropLast.getLast? = some cr then segment.dropLast.dropLast else segment.dropLast
  else segment

/-! ### Pieces -/

theorem segmentsBy_lf (lf : α) (rest : List α) :
    segmentsBy lf (lf :: rest) = [lf] :: segmentsBy lf rest := by
  rw [segmentsBy, if_pos rfl]

theorem segmentsBy_cons_of_ne {c lf : α} (hc : c ≠ lf) {rest segment : List α}
    {later : List (List α)} (h : segmentsBy lf rest = segment :: later) :
    segmentsBy lf (c :: rest) = (c :: segment) :: later := by
  rw [segmentsBy, if_neg hc, h]

theorem segmentsBy_eq_nil {lf : α} {cs : List α} (h : segmentsBy lf cs = []) : cs = [] := by
  cases cs with
  | nil => rfl
  | cons c rest =>
    rw [segmentsBy] at h
    split at h
    · cases h
    · split at h
      · cases h
      · cases h

/-- The pieces of what follows a character, by those of the whole text. -/
theorem of_segmentsBy_cons {c lf : α} {rest segment : List α} {later : List (List α)}
    (h : segmentsBy lf (c :: rest) = segment :: later) :
    (c = lf ∧ segment = [c] ∧ later = segmentsBy lf rest) ∨
      (c ≠ lf ∧ rest = [] ∧ segment = [c] ∧ later = []) ∨
      ∃ more, c ≠ lf ∧ segment = c :: more ∧ segmentsBy lf rest = more :: later := by
  rw [segmentsBy] at h
  by_cases hc : c = lf
  · rw [if_pos hc] at h
    rcases List.cons.inj h with ⟨rfl, rfl⟩
    exact .inl ⟨hc, rfl, rfl⟩
  · rw [if_neg hc] at h
    cases hrest : segmentsBy lf rest with
    | nil =>
      rw [hrest] at h
      rcases List.cons.inj h with ⟨rfl, rfl⟩
      exact .inr (.inl ⟨hc, segmentsBy_eq_nil hrest, rfl, rfl⟩)
    | cons more later' =>
      rw [hrest] at h
      rcases List.cons.inj h with ⟨rfl, rfl⟩
      exact .inr (.inr ⟨more, hc, rfl, rfl⟩)

/-- The first piece starts as the text does. -/
theorem head?_of_segmentsBy {lf : α} {cs segment : List α} {later : List (List α)}
    (h : segmentsBy lf cs = segment :: later) : segment.head? = cs.head? := by
  cases cs with
  | nil => cases h
  | cons c rest =>
    rcases of_segmentsBy_cons h with ⟨-, rfl, -⟩ | ⟨-, -, rfl, -⟩ | ⟨more, -, rfl, -⟩
    · rfl
    · rfl
    · rfl

/-- Nothing is lost. -/
theorem flatten_segmentsBy (lf : α) (cs : List α) : (segmentsBy lf cs).flatten = cs := by
  induction cs with
  | nil => rfl
  | cons c rest ih =>
    rw [segmentsBy]
    by_cases hc : c = lf
    · rw [if_pos hc, List.flatten_cons, ih, List.singleton_append]
    · rw [if_neg hc]
      cases hrest : segmentsBy lf rest with
      | nil =>
        rw [segmentsBy_eq_nil hrest]
        rfl
      | cons segment later =>
        rw [hrest, List.flatten_cons] at ih
        dsimp only
        rw [List.flatten_cons, List.cons_append, ih]

/-- The first few pieces of a text are the pieces of what they are together. -/
theorem segmentsBy_flatten {lf : α} {cs : List α} {front back : List (List α)}
    (h : segmentsBy lf cs = front ++ back) : segmentsBy lf front.flatten = front := by
  induction cs generalizing front with
  | nil =>
    have hfront : front = [] := (List.append_eq_nil_iff.1 h.symm).1
    rw [hfront]
    rfl
  | cons c rest ih =>
    cases front with
    | nil => rfl
    | cons segment front =>
      rcases of_segmentsBy_cons h with
        ⟨hc, rfl, hlater⟩ | ⟨hc, rfl, rfl, hlater⟩ | ⟨more, hc, rfl, hrest⟩
      · rw [List.flatten_cons, List.singleton_append, hc, segmentsBy_lf, ih hlater.symm]
      · have hfront : front = [] := (List.append_eq_nil_iff.1 hlater).1
        rw [hfront, List.flatten_cons, List.flatten_nil, List.append_nil, segmentsBy, if_neg hc]
        rfl
      · have hmore : segmentsBy lf (more :: front).flatten = more :: front := ih hrest
        rw [List.flatten_cons] at hmore
        rw [List.flatten_cons, List.cons_append, segmentsBy_cons_of_ne hc hmore]

/-! ### Line ends -/

/-- What is taken off a piece is a line end or nothing. -/
theorem stripBy_append (cr lf : α) (segment : List α) :
    ∃ tail, segment = stripBy cr lf segment ++ tail ∧
      (tail = [] ∨ tail = [lf] ∨ tail = [cr, lf]) := by
  rw [stripBy]
  by_cases hlf : segment.getLast? = some lf
  · rcases List.getLast?_eq_some_iff.1 hlf with ⟨line, rfl⟩
    rw [if_pos hlf, List.dropLast_concat]
    by_cases hcr : line.getLast? = some cr
    · rcases List.getLast?_eq_some_iff.1 hcr with ⟨line, rfl⟩
      rw [if_pos hcr, List.dropLast_concat]
      exact ⟨[cr, lf], by simp, .inr (.inr rfl)⟩
    · rw [if_neg hcr]
      exact ⟨[lf], rfl, .inr (.inl rfl)⟩
  · rw [if_neg hlf]
    exact ⟨[], (List.append_nil segment).symm, .inl rfl⟩

/-- A character in front of a piece stays, unless it belongs to the line end. -/
theorem stripBy_cons {cr lf c : α} {segment : List α} (hne : segment ≠ [])
    (hc : ¬ (c = cr ∧ segment.head? = some lf)) :
    stripBy cr lf (c :: segment) = c :: stripBy cr lf segment := by
  rcases List.exists_cons_of_ne_nil hne with ⟨d, rest, rfl⟩
  rw [stripBy, stripBy, List.getLast?_cons_cons, List.dropLast_cons_cons]
  by_cases hlf : (d :: rest).getLast? = some lf
  · rw [if_pos hlf, if_pos hlf]
    cases rest with
    | nil =>
      -- the piece is the line feed alone, so `c` is not the carriage return of its line end
      have hcr : c ≠ cr := fun h => hc ⟨h, hlf⟩
      rw [if_neg (by simpa using hcr)]
      rfl
    | cons e rest =>
      rw [List.dropLast_cons_cons, List.getLast?_cons_cons]
      split
      · rfl
      · rfl
  · rw [if_neg hlf, if_neg hlf]

/-- The lines of a text are its pieces without their line ends. -/
theorem linesBy_eq_map_stripBy (cr lf : α) (cs : List α) :
    linesBy cr lf cs = (segmentsBy lf cs).map (stripBy cr lf) := by
  induction cs with
  | nil => rfl
  | cons c rest ih =>
    by_cases hlf : c = lf
    · rw [hlf, linesBy, if_pos rfl, segmentsBy_lf, ih, List.map_cons]
      simp [stripBy]
    · rw [linesBy, if_neg hlf]
      cases hsegments : segmentsBy lf rest with
      | nil =>
        rw [segmentsBy_eq_nil hsegments, segmentsBy, if_neg hlf, if_neg (by simp)]
        simp [linesBy, segmentsBy, stripBy, hlf]
      | cons segment later =>
        have hhead := head?_of_segmentsBy hsegments
        rw [segmentsBy_cons_of_ne hlf hsegments, ih, hsegments]
        by_cases hcr : c = cr ∧ rest.head? = some lf
        · -- the carriage return is not kept, and the line in front of it is empty
          rw [if_pos hcr]
          rcases hcr with ⟨rfl, hrest⟩
          cases rest with
          | nil => cases hrest
          | cons d rest =>
            have hd : d = lf := Option.some.inj hrest
            rw [hd, segmentsBy_lf] at hsegments
            rcases List.cons.inj hsegments with ⟨rfl, rfl⟩
            simp [stripBy]
        · have hsegment : segment ≠ [] := by
            rintro rfl
            cases rest with
            | nil => cases hsegments
            | cons d rest => cases hhead
          rw [if_neg hcr, List.map_cons, List.map_cons, stripBy_cons hsegment (by rwa [hhead])]

/-- A character that is no part of a line end belongs to the first line. -/
theorem linesBy_cons {cr lf c : α} {rest : List α} (hlf : c ≠ lf)
    (hcr : ¬ (c = cr ∧ rest.head? = some lf)) :
    linesBy cr lf (c :: rest) =
      (c :: (linesBy cr lf rest).headD []) :: (linesBy cr lf rest).tail := by
  rw [linesBy, if_neg hlf, if_neg hcr]
  cases linesBy cr lf rest <;> rfl

/-- Characters in front of a text that end no line belong to its first line. -/
theorem linesBy_prepend {cr lf : α} {front : List α} (hfront : ∀ c ∈ front, c ≠ lf ∧ c ≠ cr)
    (hne : front ≠ []) (cs : List α) :
    linesBy cr lf (front ++ cs) =
      (front ++ (linesBy cr lf cs).headD []) :: (linesBy cr lf cs).tail := by
  induction front with
  | nil => exact absurd rfl hne
  | cons c front ih =>
    rcases List.forall_mem_cons.1 hfront with ⟨⟨hlf, hcr⟩, hfront⟩
    rw [List.cons_append, linesBy_cons hlf (fun h => hcr h.1)]
    cases front with
    | nil => rfl
    | cons d front =>
      rw [ih hfront (List.cons_ne_nil d front)]
      rfl

end Shc.Text
