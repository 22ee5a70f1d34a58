import Shc.Proofs.Lexing.Place
import Shc.Proofs.Lexing.Scan

/-!
# Blanks between tokens

A blank can be put in front of a token, or behind one that is no error, and the same tokens
are found.  The blank may be a line end, so that the lexer takes the text apart into other
lines; `scan` shows that this does not matter.  What does matter is the character behind a
lexeme, where a lexeme may end or go on.  No lexeme goes on with a blank.
-/

namespace Shc

open Token (Kind)

/-! ### Blanks are part of no lexeme -/

namespace Text

theorem Ranges.exists_of_contains {ranges : Ranges} {n : Nat} (h : ranges.contains n = true) :
    ∃ r ∈ ranges, r.1 ≤ n ∧ n ≤ r.2 := by
  induction ranges with
  | nil => cases h
  | cons r ranges ih =>
    rw [contains] at h
    split_ifs at h with hlow hhigh
    · exact ⟨r, List.mem_cons_self, Nat.le_of_not_lt hlow, hhigh⟩
    · obtain ⟨r', hmem, hr'⟩ := ih h
      exact ⟨r', List.mem_cons_of_mem _ hmem, hr'⟩

/-- The blanks are few enough to look at each of them. -/
theorem contains_of_isBlank {ranges : Ranges}
    (hranges : blankRanges.all (fun r =>
      (List.range' r.1 (r.2 + 1 - r.1)).all fun n => !ranges.contains n) = true)
    {c : Char} (hc : isBlank c = true) : ranges.contains c.toNat = false := by
  obtain ⟨r, hr, hlow, hhigh⟩ := Ranges.exists_of_contains hc
  have hmem : c.toNat ∈ List.range' r.1 (r.2 + 1 - r.1) := by
    rw [List.mem_range'_1]
    omega
  simpa using List.all_eq_true.1 (List.all_eq_true.1 hranges r hr) _ hmem

end Text

namespace Lexeme

theorem isNamePart_of_isBlank {c : Char} (hc : Text.isBlank c = true) : isNamePart c = false := by
  have hne : c ≠ '_' := by
    rintro rfl
    exact absurd hc (by decide)
  have hletter : Text.isLetter c = false := Text.contains_of_isBlank (by decide +kernel) hc
  have hnumeral : Text.isNumeral c = false := Text.contains_of_isBlank (by decide +kernel) hc
  simp [isNamePart, hne, hletter, hnumeral]

theorem isDigit_of_isBlank {c : Char} (hc : Text.isBlank c = true) : c.isDigit = false := by
  by_contra hdigit
  have hpart := isNamePart_of_isDigit (eq_true_of_ne_false hdigit)
  rw [isNamePart_of_isBlank hc] at hpart
  cases hpart

theorem double?_of_isBlank {d : Char} (hd : Text.isBlank d = true) (c : Char) :
    double? c d = none := by
  unfold double?
  split <;> first | rfl | exact absurd hd (by decide)

/-! ### What follows a lexeme -/

/-- The lexeme that ends in front of `rest` ends in front of `rest'` as well: it sees the same
    character there, or a blank, or nothing. -/
def EndsAlso (rest rest' : List Char) : Prop :=
  rest'.head? = rest.head? ∨ HeadIn Text.isBlank rest'

theorem EndsAlso.headIn {rest rest' : List Char} {p : Char → Bool} (h : EndsAlso rest rest')
    (hrest : HeadIn p rest) (hblank : ∀ c, Text.isBlank c = true → p c = true) :
    HeadIn p rest' := by
  rcases h with hhead | hblanks
  · rw [HeadIn, hhead]
    exact hrest
  · exact hblanks.mono hblank

theorem headIn_of_length {p : Char → Bool} {cs rest : List Char} (hcs : ∀ c ∈ cs, p c = true)
    (h : ((cs ++ rest).takeWhile p).length = cs.length) : HeadIn (fun c => !p c) rest := by
  rw [List.takeWhile_append_of_pos hcs, List.length_append] at h
  cases rest with
  | nil => exact headIn_nil
  | cons c rest =>
    refine headIn_cons ?_ rest
    cases hc : p c with
    | false => rfl
    | true =>
      rw [List.takeWhile_cons_of_pos hc, List.length_cons] at h
      omega

/-- A lexeme is taken for the same token in front of another text that it ends at. -/
theorem read_endsAlso {c : Char} {cs rest rest' : List Char} {kind : Kind}
    (hspelling : Spelling (c :: cs) kind) (hread : read c (cs ++ rest) = (kind, cs.length + 1))
    (h : EndsAlso rest rest') : read c (cs ++ rest') = (kind, cs.length + 1) := by
  cases hspelling.form with
  | closed hclosed => exact hclosed rest'
  | @single s hnil hsingle hkind =>
    subst hnil hkind
    rw [List.nil_append] at hread ⊢
    -- no symbol of two characters starts here, or it would have been taken
    have hdouble : HeadIn (fun d => (double? c d).isNone) rest := by
      intro d hd
      cases hfound : double? c d with
      | none => simp only [hfound, Option.isNone_none]
      | some s' => simp [read, symbol?, Option.mem_def.1 hd, hfound] at hread
    have hdouble' := h.headIn hdouble fun d hd => by rw [double?_of_isBlank hd]; rfl
    have hnone : rest'.head?.bind (double? c) = none := by
      cases hhead : rest'.head? with
      | none => rfl
      | some d => exact Option.isNone_iff_eq_none.1 (hdouble' d hhead)
    simp [read, symbol?, hnone, hsingle]
  | word hc hcs hkind =>
    rw [read_nameStart hc, word] at hread ⊢
    have hlength := (Prod.mk.inj hread).2
    rw [List.length_cons, Nat.add_right_cancel_iff] at hlength
    have hend := h.headIn (headIn_of_length hcs hlength) fun d hd => by
      rw [isNamePart_of_isBlank hd]; rfl
    rw [takeWhile_append_headIn hcs hend, hkind, List.length_cons]
  | number hds hkind =>
    obtain ⟨hc, hcs⟩ := List.forall_mem_cons.1 hds
    rw [read_digit hc, number] at hread ⊢
    have hlength := (Prod.mk.inj hread).2
    rw [List.length_cons, Nat.add_right_cancel_iff] at hlength
    have hend := h.headIn (headIn_of_length hcs hlength) fun d hd => by
      rw [isDigit_of_isBlank hd]; rfl
    rw [takeWhile_append_headIn hcs hend, hkind, List.length_cons]

end Lexeme

open Lexeme (EndsAlso)

/-- Characters that end no line belong to the line that they stand in front of. -/
theorem Text.restOfLine_append {front : List Char} (hlf : '\n' ∉ front)
    (hcr : ∀ c ∈ front.getLast?, c ≠ '\r') (cs : List Char) :
    restOfLine (front ++ cs) = front ++ restOfLine cs := by
  induction front with
  | nil => rfl
  | cons c front ih =>
    obtain ⟨hc, hfront⟩ := not_or.1 (mt List.mem_cons.2 hlf)
    have hlineEnd : ¬ (c = '\r' ∧ (front ++ cs).head? = some '\n') := by
      rintro ⟨rfl, hhead⟩
      cases front with
      | nil => exact hcr '\r' rfl rfl
      | cons d front =>
        obtain rfl : d = '\n' := Option.some.inj hhead
        exact hfront List.mem_cons_self
    have hlast : ∀ d ∈ front.getLast?, d ≠ '\r' :=
      fun d hd => hcr d (List.mem_getLast?_cons hd)
    have hlines : Text.lines (c :: (front ++ cs)) =
        (c :: restOfLine (front ++ cs)) :: (Text.lines (front ++ cs)).tail :=
      Text.linesBy_cons (Ne.symm hc) hlineEnd
    rw [List.cons_append, restOfLine, hlines, List.headD_cons, ih hfront hlast, List.cons_append]

/-- What comes next on the line comes next in the text. -/
theorem Text.head?_restOfLine {c : Char} {cs : List Char} (h : c ∈ (restOfLine cs).head?) :
    c ∈ cs.head? := by
  cases cs with
  | nil => cases h
  | cons d cs =>
    rcases Ahead.cases_text d cs with ⟨-, hnil⟩ | ⟨-, hcons, -⟩
    · rw [hnil] at h
      cases h
    · rw [hcons] at h
      exact h

theorem Text.head?_restOfLine_cons {c : Char} (hc : isBlank c = false) (cs : List Char) :
    (restOfLine (c :: cs)).head? = some c := by
  by_contra hne
  exact Ahead.head?_ne ⟨rfl, rfl⟩ hc hne rfl

namespace Lexeme.EndsAlso

theorem refl (rest : List Char) : EndsAlso rest rest :=
  .inl rfl

/-- A blank in front of the text or further on. -/
theorem insert {w : Char} (hw : Text.isBlank w = true) (front rest : List Char) :
    EndsAlso (front ++ rest) (front ++ w :: rest) := by
  cases front with
  | nil => exact .inr (headIn_cons hw rest)
  | cons c front => exact .inl rfl

theorem restOfLine {rest rest' : List Char} (h : EndsAlso rest rest') :
    EndsAlso (Text.restOfLine rest) (Text.restOfLine rest') := by
  cases hhead : rest'.head? with
  | none =>
    obtain rfl := List.head?_eq_none_iff.1 hhead
    exact .inr headIn_nil
  | some c =>
    obtain ⟨tail', rfl⟩ := List.head?_eq_some_iff.1 hhead
    cases hc : Text.isBlank c with
    | true =>
      refine .inr fun d hd => ?_
      obtain rfl := Option.some.inj (Text.head?_restOfLine hd)
      exact hc
    | false =>
      rcases h with hsame | hblank
      · obtain ⟨tail, rfl⟩ := List.head?_eq_some_iff.1 hsame.symm
        exact .inl (by rw [Text.head?_restOfLine_cons hc, Text.head?_restOfLine_cons hc])
      · exact absurd ((hblank c rfl).symm.trans hc) (by decide)

/-- What a character is not followed by, it is not followed by after the change. -/
theorem head?_ne {rest rest' : List Char} (h : EndsAlso rest rest') {d : Char}
    (hd : Text.isBlank d = false) (hrest : rest.head? ≠ some d) : rest'.head? ≠ some d := by
  rcases h with hsame | hblank
  · rwa [hsame]
  · intro hhead
    exact absurd ((hblank d hhead).symm.trans hd) (by decide)

end Lexeme.EndsAlso

/-! ### How a text starts -/

/-- The text `c :: (cs ++ rest)` starts with the lexeme `c :: cs`. -/
structure Taken (c : Char) (cs rest : List Char) (kind : Kind) : Prop where
  starts : Starts c (cs ++ rest)
  spelling : Lexeme.Spelling (c :: cs) kind
  proper : kind.isTerminal = false
  read_eq : Lexeme.read c (cs ++ Text.restOfLine rest) = (kind, cs.length + 1)

namespace Taken

variable {c : Char} {cs rest rest' : List Char} {kind : Kind}

theorem endsAlso (h : Taken c cs rest kind) (hrest : EndsAlso rest rest') :
    Taken c cs rest' kind := by
  refine ⟨⟨h.starts.blank, fun hc => ?_⟩, h.spelling, h.proper,
    Lexeme.read_endsAlso h.spelling h.read_eq hrest.restOfLine⟩
  obtain ⟨hslash, hstar⟩ := h.starts.slash hc
  cases cs with
  | nil => exact ⟨hrest.head?_ne (by decide) hslash, hrest.head?_ne (by decide) hstar⟩
  | cons d cs => exact ⟨hslash, hstar⟩

theorem restOfLine_eq (h : Taken c cs rest kind) :
    Text.restOfLine (cs ++ rest) = cs ++ Text.restOfLine rest := by
  refine Text.restOfLine_append (fun hmem => ?_) (fun d hd => ?_) rest
  · exact h.spelling.onLine.ne_lf (List.mem_cons_of_mem _ hmem)
  · exact h.spelling.onLine.ne_cr d (List.mem_getLast?_cons hd)

theorem scan_eq (h : Taken c cs rest kind) :
    scan (c :: (cs ++ rest)) = ⟨[], c :: cs, kind⟩ :: (scan rest).map (.behind (c :: cs)) := by
  have hall : c :: (cs ++ rest) = (c :: cs) ++ rest := rfl
  have hwidth : cs.length + 1 = (c :: cs).length := rfl
  rw [scan_start h.starts, h.restOfLine_eq, h.read_eq, h.proper, if_neg (by decide), hall, hwidth,
    List.take_left, List.drop_left]

/-- A token that is found is a lexeme that the text starts with. -/
theorem of_read {text : List Char} (hstarts : Starts c text)
    (hproper : (Lexeme.read c (Text.restOfLine text)).1.isTerminal = false) :
    ∃ cs rest kind, text = cs ++ rest ∧ Taken c cs rest kind := by
  have hahead : Ahead text (Text.restOfLine text ++ []) (Text.lines text).tail :=
    ⟨(List.append_nil _).symm, rfl⟩
  obtain ⟨-, -, hline, -⟩ := hahead.split
  obtain ⟨cs, tail, hrest, hwidth, hspelling⟩ := Lexeme.spelling_of_read hline hproper
  obtain ⟨rest, rfl, -, hbehind⟩ := Ahead.split ⟨hrest, rfl⟩
  refine ⟨cs, rest, _, rfl, hstarts, hspelling, hproper, ?_⟩
  rw [hbehind.rest_eq, ← hrest, ← hwidth]

end Taken

/-- The characters are passed over, whatever follows them. -/
def Skipped (front : List Char) : Prop :=
  ∀ rest, scan (front ++ rest) = (scan rest).map (.behind front)

theorem skipped_blank {c : Char} (hc : Text.isBlank c = true) : Skipped [c] :=
  scan_blank hc

theorem skipped_line {body : List Char} (hbody : '\n' ∉ body) :
    Skipped ('/' :: '/' :: (body ++ ['\n'])) := by
  intro rest
  have htext : '/' :: '/' :: (body ++ ['\n']) ++ rest = '/' :: '/' :: (body ++ '\n' :: rest) := by
    simp
  rw [htext, scan_line hbody (.lf rest), scan_blank isBlank_lf, Mark.map_behind_behind]
  rfl

theorem skipped_block {cs body rest : List Char} (h : closing? cs = some (body, rest)) :
    Skipped ('/' :: '*' :: body) :=
  fun rest' => scan_block ((of_closing? h).2.2 rest')

/-- What comes first in a text: nothing any more, an error, something to pass over or a token. -/
inductive First : List Char → Prop where
  | last {cs : List Char} {m : Mark} : scan cs = [m] → m.kind = .eos → First cs
  | error {cs covered : List Char} {kind : Kind} : scan cs = [⟨[], covered, kind⟩] →
      covered <+: cs → kind.isTerminal = true → First cs
  | skip {front : List Char} (rest : List Char) : front ≠ [] → Skipped front →
      First (front ++ rest)
  | token {c : Char} {cs rest : List Char} {kind : Kind} : Taken c cs rest kind →
      First (c :: (cs ++ rest))

namespace First

theorem line (body : List Char) : First ('/' :: '/' :: body) := by
  by_cases hlf : '\n' ∈ body
  · obtain ⟨body, rest, rfl, hbody⟩ := List.eq_append_cons_of_mem hlf
    have hskip := First.skip rest (List.cons_ne_nil _ _) (skipped_line hbody)
    rwa [List.cons_append, List.cons_append, List.append_assoc] at hskip
  · have hscan := scan_line hlf .stop
    rw [List.append_nil, scan, List.map_singleton] at hscan
    exact .last hscan rfl

theorem block (cs : List Char) : First ('/' :: '*' :: cs) := by
  cases hclosing : closing? cs with
  | none => exact .error (scan_open hclosing) (List.prefix_refl _) rfl
  | some found =>
    obtain ⟨body, rest⟩ := found
    have hskip := First.skip rest (List.cons_ne_nil _ _) (skipped_block hclosing)
    rw [(of_closing? hclosing).2.1]
    exact hskip

theorem start {c : Char} {rest : List Char} (h : Starts c rest) : First (c :: rest) := by
  cases hterminal : (Lexeme.read c (Text.restOfLine rest)).1.isTerminal with
  | true =>
    have hscan := scan_start h
    rw [hterminal, if_pos rfl] at hscan
    exact .error hscan (List.take_prefix ..) hterminal
  | false =>
    obtain ⟨cs, rest, kind, rfl, htaken⟩ := Taken.of_read h hterminal
    exact .token htaken

theorem of (cs : List Char) : First cs := by
  cases cs with
  | nil => exact .last (by rw [scan]) rfl
  | cons c rest =>
    by_cases hline : c = '/' ∧ rest.head? = some '/'
    · obtain ⟨rfl, hhead⟩ := hline
      obtain ⟨body, rfl⟩ := List.head?_eq_some_iff.1 hhead
      exact line body
    by_cases hblock : c = '/' ∧ rest.head? = some '*'
    · obtain ⟨rfl, hhead⟩ := hblock
      obtain ⟨cs, rfl⟩ := List.head?_eq_some_iff.1 hhead
      exact block cs
    cases hblank : Text.isBlank c with
    | true => exact .skip rest (List.cons_ne_nil _ _) (skipped_blank hblank)
    | false =>
      exact start ⟨hblank, fun hc =>
        ⟨fun hhead => hline ⟨hc, hhead⟩, fun hhead => hblock ⟨hc, hhead⟩⟩⟩

end First

/-! ### A blank more -/

/-- The kinds of the tokens that the scanner finds. -/
def kinds (cs : List Char) : List Kind :=
  (scan cs).map Mark.kind

theorem map_kind_behind (front : List Char) (ms : List Mark) :
    (ms.map (.behind front)).map Mark.kind = ms.map Mark.kind := by
  rw [List.map_map]
  rfl

theorem Skipped.kinds_eq {front : List Char} (h : Skipped front) (rest : List Char) :
    kinds (front ++ rest) = kinds rest := by
  rw [kinds, h, map_kind_behind, kinds]

theorem Taken.kinds_eq {c : Char} {cs rest : List Char} {kind : Kind} (h : Taken c cs rest kind) :
    kinds (c :: cs ++ rest) = kind :: kinds rest := by
  rw [kinds, List.cons_append, h.scan_eq, List.map_cons, map_kind_behind, kinds]

/-- Between `front` and `rest` a blank makes no difference. -/
def Loose (front rest : List Char) : Prop :=
  ∀ w, Text.isBlank w = true → kinds (front ++ w :: rest) = kinds (front ++ rest)

theorem loose_nil (rest : List Char) : Loose [] rest :=
  fun _ hw => (skipped_blank hw).kinds_eq rest

/-- A blank further on makes no difference for what is in front, so that it is left to look at
    the text behind. -/
theorem Loose.behind {more rest : List Char} (h : Loose more rest) (front : List Char)
    (first : List Kind) (hfirst : ∀ rest', EndsAlso (more ++ rest) rest' →
      kinds (front ++ rest') = first ++ kinds rest') : Loose (front ++ more) rest := by
  intro w hw
  rw [List.append_assoc, List.append_assoc, hfirst _ (.insert hw more rest),
    hfirst _ (.refl _), h w hw]

/-- A blank makes no difference in front of the token, or behind it if it is proper. -/
structure Mark.LooseIn (cs : List Char) (m : Mark) (after : List Char) : Prop where
  text_eq : cs = m.before ++ (m.covered ++ after)
  front : Loose m.before (m.covered ++ after)
  back : m.kind.isTerminal = false → Loose (m.before ++ m.covered) after

theorem Mark.LooseIn.behind {cs after : List Char} {m : Mark} (h : m.LooseIn cs after)
    (front : List Char) (first : List Kind)
    (hfirst : ∀ rest, EndsAlso cs rest → kinds (front ++ rest) = first ++ kinds rest) :
    (m.behind front).LooseIn (front ++ cs) after := by
  obtain ⟨rfl, hfront, hback⟩ := h
  refine ⟨?_, hfront.behind front first hfirst, fun hproper => ?_⟩
  · rw [Mark.behind, List.append_assoc]
  · rw [← List.append_assoc] at hfirst
    have hbehind := (hback hproper).behind front first hfirst
    rwa [← List.append_assoc] at hbehind

theorem Taken.loose {c : Char} {cs rest : List Char} {kind : Kind} (h : Taken c cs rest kind) :
    Mark.LooseIn (c :: cs ++ rest) ⟨[], c :: cs, kind⟩ rest := by
  refine ⟨rfl, loose_nil _, fun _ => ?_⟩
  have hbehind := (loose_nil rest).behind (c :: cs) [kind]
    fun rest' hrest => (h.endsAlso hrest).kinds_eq
  rwa [List.append_nil] at hbehind

/-- Every token of a text is loose in it. -/
theorem loose_of_mem_scan (cs : List Char) :
    ∀ m ∈ scan cs, m.kind ≠ .eos → ∃ after, m.LooseIn cs after := by
  induction hlength : cs.length using Nat.strongRecOn generalizing cs with
  | _ n ih =>
    intro m hm hkind
    cases First.of cs with
    | last hscan heos =>
      rw [hscan] at hm
      obtain rfl := List.mem_singleton.1 hm
      exact absurd heos hkind
    | error hscan hprefix hterminal =>
      rw [hscan] at hm
      obtain rfl := List.mem_singleton.1 hm
      obtain ⟨after, rfl⟩ := hprefix
      refine ⟨after, rfl, loose_nil _, fun hproper => ?_⟩
      exact absurd (hproper.symm.trans hterminal) (by decide)
    | @skip front rest hne hskipped =>
      rw [hskipped] at hm
      obtain ⟨m, hmem, rfl⟩ := List.mem_map.1 hm
      have hlt : rest.length < n := by
        have hpos := List.length_pos_iff.2 hne
        rw [← hlength, List.length_append]
        omega
      obtain ⟨after, hloose⟩ := ih _ hlt rest rfl m hmem hkind
      exact ⟨after, hloose.behind front [] fun rest' _ => hskipped.kinds_eq rest'⟩
    | @token c cs rest kind htaken =>
      rw [htaken.scan_eq] at hm
      rcases List.mem_cons.1 hm with rfl | hm
      · exact ⟨rest, htaken.loose⟩
      · obtain ⟨m, hmem, rfl⟩ := List.mem_map.1 hm
        have hlt : rest.length < n := by
          rw [← hlength, List.length_cons, List.length_append]
          omega
        obtain ⟨after, hloose⟩ := ih _ hlt rest rfl m hmem hkind
        exact ⟨after, hloose.behind (c :: cs) [kind]
          fun rest' hrest => (htaken.endsAlso hrest).kinds_eq⟩

/-! ### Blanks and tokens -/

namespace Source

variable {cs : List Char} {t : Token}

/-- The scanner finds the token as well. -/
theorem exists_mark (ht : t ∈ (Source.ofChars cs).tokens) : ∃ m ∈ scan cs, Mark.At ⟨1, 1⟩ t m := by
  obtain ⟨i, hi, rfl⟩ := List.getElem_of_mem ht
  have hscan := forall₂_scan cs
  have hi' : i < (scan cs).length := hscan.length_eq ▸ hi
  exact ⟨(scan cs)[i], List.getElem_mem hi', hscan.get hi hi'⟩

/-- A token that is not the end of the source has its place in the text. -/
theorem exists_holds (ht : t ∈ (Source.ofChars cs).tokens) (hkind : t.kind ≠ .eos) :
    ∃ before covered after, t.span.Holds cs before covered after := by
  have hne : cs ≠ [] := by
    rintro rfl
    obtain ⟨m, hm, hat⟩ := exists_mark ht
    rw [scan, List.mem_singleton] at hm
    exact hkind (by rw [hat.kind_eq, hm])
  have hin := span_in_lines hne ht
  obtain ⟨line, hline⟩ := hin.start_on
  obtain ⟨before, covered, after, hholds, -⟩ := hin.exists_holds hline
  exact ⟨before, covered, after, hholds⟩

/-- The characters of a token are those that the scanner gives it, and blanks around them
    make no difference. -/
theorem loose_of_holds (ht : t ∈ (Source.ofChars cs).tokens) (hkind : t.kind ≠ .eos)
    {before covered after : List Char} (h : t.span.Holds cs before covered after) :
    Loose before (covered ++ after) ∧ (t.isTerminal = false → Loose (before ++ covered) after) := by
  obtain ⟨m, hm, hat⟩ := exists_mark ht
  obtain ⟨after', htext, hfront, hback⟩ :=
    loose_of_mem_scan cs m hm (hat.kind_eq ▸ hkind)
  have hbefore : before = m.before :=
    Text.eq_of_after_eq ⟨_, h.text_eq.symm⟩ ⟨_, htext.symm⟩
      (h.start_eq.trans (hat.start_eq hkind))
  have hrest : covered ++ after = m.covered ++ after' := by
    have hsplit := h.text_eq.symm.trans htext
    rwa [hbefore, List.append_cancel_left_eq] at hsplit
  refine ⟨by rwa [hbefore, hrest], fun hproper => ?_⟩
  have hthrough : before ++ covered = m.before ++ m.covered :=
    Text.eq_of_after_eq ⟨_, (List.append_assoc ..).trans h.text_eq.symm⟩
      ⟨_, (List.append_assoc ..).trans htext.symm⟩ (h.stop_eq.trans (hat.stop_eq hproper))
  have hafter : after = after' := by
    rw [hbefore, List.append_cancel_left_eq] at hthrough
    rwa [hthrough, List.append_cancel_left_eq] at hrest
  rw [hthrough, hafter]
  exact hback (by rw [← hat.kind_eq]; exact hproper)

/-- Blanks around a token are insignificant: with one more in front of a token, or behind a
    token that is no error, the tokens of a text are of the same kinds. -/
theorem kinds_insert_blank (text : String) (t : Token) (ht : t ∈ (Source.ofString text).tokens)
    (hkind : t.kind ≠ .eos) (w : Char) (hw : Text.isBlank w = true) :
    (∃ before covered after, t.span.Holds text.toList before covered after) ∧
      ∀ before covered after, t.span.Holds text.toList before covered after →
        (Source.ofChars (before ++ w :: (covered ++ after))).tokens.map Token.kind =
            (Source.ofString text).tokens.map Token.kind ∧
          ((∀ e, t.kind ≠ .error e) →
            (Source.ofChars (before ++ (covered ++ w :: after))).tokens.map Token.kind =
              (Source.ofString text).tokens.map Token.kind) := by
  refine ⟨exists_holds ht hkind, fun before covered after hholds => ?_⟩
  obtain ⟨hfront, hback⟩ := loose_of_holds ht hkind hholds
  have htext : (Source.ofString text).tokens.map Token.kind =
      kinds (before ++ (covered ++ after)) := by
    rw [← hholds.text_eq]
    exact kinds_scan text.toList
  rw [htext, kinds_scan, kinds_scan]
  refine ⟨hfront w hw, fun herror => ?_⟩
  have hproper : t.isTerminal = false := by
    rw [Token.isTerminal]
    cases hcase : t.kind with
    | eos => exact absurd hcase hkind
    | error e => exact absurd hcase (herror e)
    | _ => rfl
  have hloose := hback hproper w hw
  rwa [List.append_assoc, List.append_assoc] at hloose

/-- The slash does not become part of the comment in front of it. -/
theorem kinds_insert_blank_slash :
    (⟨.symbol .slash, ⟨⟨2, 1⟩, ⟨2, 2⟩⟩⟩ : Token) ∈ (Source.ofString "a//\n/b").tokens ∧
      Text.isBlank '\r' = true ∧
      (Source.ofString "a//\n\r/b").tokens.map Token.kind =
        (Source.ofString "a//\n/b").tokens.map Token.kind ∧
      (Source.ofString "a//\n/\rb").tokens.map Token.kind =
        (Source.ofString "a//\n/b").tokens.map Token.kind := by
  have hmem : (⟨.symbol .slash, ⟨⟨2, 1⟩, ⟨2, 2⟩⟩⟩ : Token) ∈
      (Source.ofString "a//\n/b").tokens := by decide +kernel
  have hinsert := (kinds_insert_blank "a//\n/b" _ hmem (by decide) '\r' (by decide)).2
    ['a', '/', '/', '\n'] ['/'] ['b'] ⟨rfl, rfl, rfl⟩
  exact ⟨hmem, by decide, hinsert.1, hinsert.2 fun e => by simp⟩

end Source

end Shc
