import Mathlib.Data.List.TakeWhile
import Shc.Files.Path

/-!
# Paths of outputs

A path is cut into pieces at its slashes.  Text without slashes that is put behind a
path only lengthens the last piece, and a name that is joined to a directory becomes
the last piece.  So the last piece of the path of an output is a name that ends in
`.c`, and the directory of an output that goes into a directory is that directory: it
has the same steps from the same start.
-/

namespace Shc

namespace Path

/-! ### Pieces -/

theorem cut_ne_nil (cs : List Char) : cut cs ≠ [] := by
  cases cs with
  | nil => exact List.cons_ne_nil _ _
  | cons c cs =>
    rw [cut]
    split
    · exact List.cons_ne_nil _ _
    · split
      · exact List.cons_ne_nil _ _
      · exact List.cons_ne_nil _ _

theorem cut_cons_of_ne {c : Char} (hc : c ≠ '/') {cs piece : List Char}
    {pieces : List (List Char)} (h : cut cs = piece :: pieces) :
    cut (c :: cs) = (c :: piece) :: pieces := by
  rw [cut, if_neg hc, h]

theorem cut_slash (cs ds : List Char) : cut (cs ++ '/' :: ds) = cut cs ++ cut ds := by
  induction cs with
  | nil => rfl
  | cons c cs ih =>
    by_cases hc : c = '/'
    · subst hc
      exact congrArg ([] :: ·) ih
    · obtain ⟨piece, pieces, hcut⟩ := List.exists_cons_of_ne_nil (cut_ne_nil cs)
      rw [hcut, List.cons_append] at ih
      rw [List.cons_append, cut_cons_of_ne hc ih, cut_cons_of_ne hc hcut, List.cons_append]

theorem cut_of_not_mem {cs : List Char} (h : '/' ∉ cs) : cut cs = [cs] := by
  induction cs with
  | nil => rfl
  | cons c cs ih =>
    rw [List.mem_cons, not_or] at h
    exact cut_cons_of_ne (Ne.symm h.1) (ih h.2)

theorem not_mem_of_mem_cut {cs piece : List Char} (h : piece ∈ cut cs) : '/' ∉ piece := by
  induction cs generalizing piece with
  | nil =>
    rw [List.mem_singleton.1 h]
    exact List.not_mem_nil
  | cons c cs ih =>
    by_cases hc : c = '/'
    · rw [cut, if_pos hc] at h
      rcases List.mem_cons.1 h with rfl | hlater
      · exact List.not_mem_nil
      · exact ih hlater
    · obtain ⟨first, later, hcut⟩ := List.exists_cons_of_ne_nil (cut_ne_nil cs)
      rw [hcut] at ih
      rw [cut_cons_of_ne hc hcut] at h
      rcases List.mem_cons.1 h with rfl | hlater
      · rw [List.mem_cons, not_or]
        exact ⟨Ne.symm hc, ih List.mem_cons_self⟩
      · exact ih (List.mem_cons_of_mem _ hlater)

/-- Text without slashes lengthens the last piece. -/
theorem exists_cut (cs : List Char) :
    ∃ front last, cut cs = front ++ [last] ∧
      ∀ ds, '/' ∉ ds → cut (cs ++ ds) = front ++ [last ++ ds] := by
  by_cases h : '/' ∈ cs
  · -- the last slash is the first one from the other end
    obtain ⟨last, before, hreverse, hlast⟩ := List.eq_append_cons_of_mem (List.mem_reverse.2 h)
    have hcs : cs = before.reverse ++ '/' :: last.reverse := by
      rw [← List.reverse_reverse cs, hreverse]
      simp
    have hlast' : '/' ∉ last.reverse := by rwa [List.mem_reverse]
    refine ⟨cut before.reverse, last.reverse, ?_, ?_⟩
    · rw [hcs, cut_slash, cut_of_not_mem hlast']
    · intro ds hds
      have hboth : '/' ∉ last.reverse ++ ds := by
        rw [List.mem_append, not_or]
        exact ⟨hlast', hds⟩
      rw [hcs, List.append_assoc, List.cons_append, cut_slash, cut_of_not_mem hboth]
  · refine ⟨[], cs, cut_of_not_mem h, ?_⟩
    intro ds hds
    apply cut_of_not_mem
    rw [List.mem_append, not_or]
    exact ⟨h, hds⟩

/-- A text that can be a piece. -/
def IsPiece (name : String) : Prop :=
  '/' ∉ name.toList

instance (name : String) : Decidable (IsPiece name) :=
  inferInstanceAs (Decidable ('/' ∉ name.toList))

theorem IsPiece.append {name name' : String} (h : IsPiece name) (h' : IsPiece name') :
    IsPiece (name ++ name') := by
  rw [IsPiece, String.toList_append, List.mem_append, not_or]
  exact ⟨h, h'⟩

theorem isPiece_of_mem_pieces {p : Path} {piece : String} (h : piece ∈ p.pieces) :
    IsPiece piece := by
  obtain ⟨cs, hcs, rfl⟩ := List.mem_map.1 h
  rw [IsPiece, String.toList_ofList]
  exact not_mem_of_mem_cut hcs

theorem pieces_append (p : Path) {s : String} (hs : IsPiece s) :
    ∃ front last, p.pieces = front ++ [last] ∧ (p ++ s).pieces = front ++ [last ++ s] := by
  obtain ⟨front, last, hcut, hlonger⟩ := exists_cut p.toList
  refine ⟨front.map String.ofList, String.ofList last, ?_, ?_⟩
  · rw [pieces, hcut, List.map_append]
    rfl
  · rw [pieces, String.toList_append, hlonger s.toList hs, List.map_append]
    simp

theorem pieces_slash (p q : Path) : pieces (p ++ "/" ++ q) = p.pieces ++ q.pieces := by
  have hchars : (p ++ "/" ++ q).toList = p.toList ++ '/' :: q.toList := by simp
  rw [pieces, hchars, cut_slash, List.map_append]
  rfl

theorem pieces_of_isPiece {name : String} (h : IsPiece name) : pieces name = [name] := by
  rw [pieces, cut_of_not_mem h]
  simp

theorem pieces_joined {first : String} {later : List String}
    (h : ∀ piece ∈ first :: later, IsPiece piece) :
    pieces (Text.joined "/" (first :: later)) = first :: later := by
  induction later generalizing first with
  | nil => exact pieces_of_isPiece (h first List.mem_cons_self)
  | cons second later ih =>
    obtain ⟨hfirst, hlater⟩ := List.forall_mem_cons.1 h
    rw [Text.joined, pieces_slash, pieces_of_isPiece hfirst, ih hlater]
    · rfl
    · simp

/-! ### Directories -/

theorem filter_trimmed (pieces : List String) :
    (trimmed pieces).filter (!isIdle ·) = pieces.filter (!isIdle ·) := by
  have hidle : (pieces.reverse.takeWhile isIdle).filter (!isIdle ·) = [] := by
    apply List.filter_eq_nil_iff.2
    intro piece hpiece
    simp [List.mem_takeWhile_imp hpiece]
  have hsplit := congrArg (List.filter (!isIdle ·))
    (List.takeWhile_append_dropWhile (p := isIdle) (l := pieces.reverse))
  rw [List.filter_append, hidle, List.nil_append] at hsplit
  rw [trimmed, List.filter_reverse, hsplit, List.filter_reverse, List.reverse_reverse]

theorem mem_of_mem_trimmed {pieces : List String} {piece : String} (h : piece ∈ trimmed pieces) :
    piece ∈ pieces := by
  rw [trimmed, List.mem_reverse] at h
  exact List.mem_reverse.1 ((List.dropWhile_suffix _).subset h)

/-- Where the directory of a path comes from. -/
theorem directory_cases (p : Path) :
    (p.pieces.dropLast = [] ∧ p.directory = ".") ∨
      (∃ later, p.pieces.dropLast = "" :: later ∧ trimmed later = [] ∧ p.directory = "/") ∨
      ∃ first later, p.pieces.dropLast = first :: later ∧ (first = "" → trimmed later ≠ []) ∧
        p.directory.pieces = first :: trimmed later := by
  rw [directory]
  cases hfront : p.pieces.dropLast with
  | nil => exact .inl ⟨rfl, rfl⟩
  | cons first later =>
    refine .inr ?_
    dsimp only
    by_cases hroot : first = "" ∧ trimmed later = []
    · obtain ⟨rfl, hlater⟩ := hroot
      exact .inl ⟨later, rfl, hlater, by simp [hlater]⟩
    · refine .inr ⟨first, later, rfl, fun hfirst hlater => hroot ⟨hfirst, hlater⟩, ?_⟩
      have hpieces : ∀ piece ∈ first :: trimmed later, IsPiece piece := by
        intro piece hpiece
        apply isPiece_of_mem_pieces (p := p)
        apply List.dropLast_subset
        rw [hfront]
        rcases List.mem_cons.1 hpiece with rfl | hpiece
        · exact List.mem_cons_self
        · exact List.mem_cons_of_mem _ (mem_of_mem_trimmed hpiece)
      split
      · exact absurd ⟨rfl, by assumption⟩ hroot
      · exact pieces_joined hpieces

/-- Only the pieces in front of the last one matter for the directory. -/
theorem steps_directory (p : Path) :
    p.directory.steps = p.pieces.dropLast.filter (!isIdle ·) := by
  rcases p.directory_cases with ⟨hfront, hdir⟩ | ⟨later, hfront, hlater, hdir⟩ |
    ⟨first, later, hfront, -, hpieces⟩
  · rw [hfront, hdir]
    rfl
  · have hidle := filter_trimmed later
    rw [hlater] at hidle
    rw [hfront, hdir, List.filter_cons_of_neg (by decide), ← hidle]
    rfl
  · rw [steps, hpieces, hfront, List.filter_cons, List.filter_cons, filter_trimmed]

theorem isAbsolute_iff (p : Path) :
    p.isAbsolute = true ↔ ∃ more, p.pieces.dropLast = "" :: more := by
  rw [isAbsolute, pieces]
  cases p.toList with
  | nil => simp [cut]
  | cons c cs =>
    obtain ⟨piece, later, hcut⟩ := List.exists_cons_of_ne_nil (cut_ne_nil cs)
    by_cases hc : c = '/'
    · rw [cut, if_pos hc, hcut]
      simp [hc]
    · rw [cut_cons_of_ne hc hcut]
      cases later with
      | nil => simp [hc]
      | cons second later => simp [hc]

theorem isAbsolute_directory (p : Path) : p.directory.isAbsolute = p.isAbsolute := by
  rw [Bool.eq_iff_iff, isAbsolute_iff p]
  rcases p.directory_cases with ⟨hfront, hdir⟩ | ⟨later, hfront, -, hdir⟩ |
    ⟨first, later, hfront, hroot, hpieces⟩
  · simp [hfront, hdir, isAbsolute]
  · simp [hfront, hdir, isAbsolute]
  · rw [isAbsolute_iff, hpieces, hfront]
    cases hlater : trimmed later with
    | nil =>
      have hfirst : first ≠ "" := fun heq => hroot heq hlater
      simp [hfirst]
    | cons second later' => simp

/-! ### Joining a name to a directory -/

section

variable (dir : Path) {name : String}

/-- The name becomes the last piece, and the pieces in front lead where the directory leads. -/
theorem pieces_join (h : IsPiece name) :
    ∃ front, (dir.join name).pieces = front ++ [name] ∧
      front.filter (!isIdle ·) = dir.steps := by
  by_cases hempty : dir = ""
  · refine ⟨[], ?_, ?_⟩
    · rw [join, hempty]
      exact pieces_of_isPiece h
    · rw [hempty]
      rfl
  · by_cases hslash : dir.toList.getLast? = some '/'
    · obtain ⟨cs, hcs⟩ := List.getLast?_eq_some_iff.1 hslash
      have hdir : dir = String.ofList cs ++ "/" := by
        rw [← String.toList_inj, hcs]
        simp
      refine ⟨pieces (String.ofList cs), ?_, ?_⟩
      · have hjoin : dir.join name = String.ofList cs ++ "/" ++ name := by
          rw [← hdir]
          simp [join, hslash]
        rw [hjoin, pieces_slash, pieces_of_isPiece h]
      · have hpieces := pieces_slash (String.ofList cs) ""
        rw [String.append_empty, ← hdir] at hpieces
        rw [steps, hpieces, List.filter_append]
        exact (List.append_nil _).symm
    · refine ⟨dir.pieces, ?_, rfl⟩
      have hjoin : dir.join name = dir ++ "/" ++ name := by
        simp [join, hempty, hslash]
      rw [hjoin, pieces_slash, pieces_of_isPiece h]

theorem isAbsolute_append {p : Path} (h : p ≠ "") (s : String) :
    isAbsolute (p ++ s) = p.isAbsolute := by
  have hne : p.toList ≠ [] := fun hnil => h (String.toList_eq_nil_iff.1 hnil)
  obtain ⟨c, cs, hcs⟩ := List.exists_cons_of_ne_nil hne
  rw [isAbsolute, isAbsolute, String.toList_append, hcs]
  rfl

theorem isAbsolute_join (h : IsPiece name) : (dir.join name).isAbsolute = dir.isAbsolute := by
  by_cases hempty : dir = ""
  · subst hempty
    have hhead : name.toList.head? ≠ some '/' := fun hsome => h (List.mem_of_head? hsome)
    simp [join, isAbsolute, hhead]
  · rw [join]
    split
    · exact isAbsolute_append hempty name
    · rw [String.append_assoc]
      exact isAbsolute_append hempty _

/-- The directory of a file in a directory is the directory. -/
theorem steps_directory_join (h : IsPiece name) : (dir.join name).directory.steps = dir.steps := by
  obtain ⟨front, hpieces, hsteps⟩ := dir.pieces_join h
  rw [steps_directory, hpieces, List.dropLast_concat, hsteps]

theorem isAbsolute_directory_join (h : IsPiece name) :
    (dir.join name).directory.isAbsolute = dir.isAbsolute := by
  rw [isAbsolute_directory, isAbsolute_join dir h]

end

/-! ### Outputs -/

/-- A piece that leads to a name. -/
def IsName (piece : String) : Prop :=
  isIdle piece = false ∧ piece ≠ ".."

theorem append_c_ne (s : String) {t : String} (h : t.toList.getLast? ≠ some 'c') :
    s ++ ".c" ≠ t := by
  rintro rfl
  exact h (by simp)

theorem isName_append_c (s : String) : IsName (s ++ ".c") := by
  have hempty : s ++ ".c" ≠ "" := append_c_ne s (by decide)
  have hdot : s ++ ".c" ≠ "." := append_c_ne s (by decide)
  exact ⟨by simp [isIdle, hempty, hdot], append_c_ne s (by decide)⟩

theorem fileName?_of_pieces {p : Path} {front : List String} {last : String}
    (h : p.pieces = front ++ [last]) (hlast : IsName last) : p.fileName? = some last := by
  have htrimmed : trimmed p.pieces = front ++ [last] := by
    rw [h, trimmed, List.reverse_append, List.reverse_singleton, List.singleton_append,
      List.dropWhile_cons_of_neg (by simp [hlast.1]), List.reverse_cons, List.reverse_reverse]
  rw [fileName?, htrimmed, List.getLast?_concat]
  simp [hlast.2]

theorem isPiece_fileName (p : Path) : IsPiece (p.fileName?.getD "out" ++ ".c") := by
  refine IsPiece.append ?_ (by decide)
  cases hname : p.fileName? with
  | none => decide
  | some name =>
    obtain ⟨hlast, -⟩ := Option.filter_eq_some_iff.1 hname
    exact isPiece_of_mem_pieces (mem_of_mem_trimmed (List.mem_of_getLast? hlast))

end Path

/-- The path of an output ends in a name, which is the name of the input and `.c` if the path
    of the input ends in a name. -/
theorem pieces_outputPath {input : Path} {front : List String} {last : String}
    (h : input.pieces = front ++ [last]) (outDir : Option Path) :
    ∃ front' name, (outputPath input outDir).pieces = front' ++ [name ++ ".c"] ∧
      (Path.IsName last → name = last) := by
  cases outDir with
  | none =>
    obtain ⟨front', last', hpieces, hlonger⟩ := input.pieces_append (s := ".c") (by decide)
    rw [h] at hpieces
    obtain ⟨-, hlast⟩ := List.append_inj' hpieces rfl
    obtain rfl := List.singleton_inj.1 hlast
    exact ⟨front', last, hlonger, fun _ => rfl⟩
  | some dir =>
    obtain ⟨front', hpieces, -⟩ := dir.pieces_join input.isPiece_fileName
    refine ⟨front', input.fileName?.getD "out", hpieces, ?_⟩
    intro hlast
    rw [Path.fileName?_of_pieces h hlast]
    rfl

end Shc
