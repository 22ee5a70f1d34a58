import Shc.Proofs.C.Lexis

/-!
# The bodies of C strings

What stands between the marks of a C string: characters that stand for themselves, simple
escapes, and octal escapes of one to three digits, each taking as many digits as it can.
`Denotes body value` states these rules, and the reader of strings follows them: it takes a
body up to the first mark that is not escaped.

The spelling of a text is a body that denotes this text and no other one.
-/

namespace Shc.C

/-- The digits of an octal escape in front of `rest`: one to three, and a fourth or another
    character that is no octal digit ends them. -/
structure OctalRun (digits rest : List Char) : Prop where
  ne_nil : digits ≠ []
  length_le : digits.length ≤ 3
  isOctal : ∀ d ∈ digits, isOctal d = true
  longest : digits.length = 3 ∨ HeadIn (fun d => !C.isOctal d) rest

/-- The text that the body of a string stands for.  An octal escape from 128 on stands for
    a byte and not for a character, so a body with one has no text. -/
inductive Denotes : List Char → List Char → Prop where
  | nil : Denotes [] []
  | plain {c : Char} {body value : List Char} : c ≠ '\x22' → c ≠ '\\' → c ≠ '\n' →
      Denotes body value → Denotes (c :: body) (c :: value)
  | simple {c d : Char} {body value : List Char} : simpleEscape? c = some d →
      Denotes body value → Denotes ('\\' :: c :: body) (d :: value)
  | octal {digits body value : List Char} : OctalRun digits body → octalValue digits < 128 →
      Denotes body value →
      Denotes ('\\' :: (digits ++ body)) (Char.ofNat (octalValue digits) :: value)

/-! ### Escapes -/

theorem isOctal_of_simpleEscape {c d : Char} (h : simpleEscape? c = some d) :
    isOctal c = false := by
  unfold simpleEscape? at h
  split at h <;> first | rfl | cases h

theorem OctalRun.of_append {digits body more : List Char} (h : OctalRun digits (body ++ more)) :
    OctalRun digits body := by
  refine ⟨h.ne_nil, h.length_le, h.isOctal, h.longest.imp_right fun hhead => ?_⟩
  cases body with
  | nil => exact headIn_nil
  | cons c body => exact headIn_cons (hhead c rfl) _

theorem OctalRun.takeWhile {digits rest : List Char} (h : OctalRun digits rest) :
    ((digits ++ rest).take 3).takeWhile C.isOctal = digits := by
  rw [List.take_append, List.take_of_length_le h.length_le]
  apply takeWhile_append_headIn h.isOctal
  rcases h.longest with hthree | hrest
  · rw [hthree]
    exact headIn_nil
  · cases rest with
    | nil => rw [List.take_nil]; exact headIn_nil
    | cons c rest =>
      cases 3 - digits.length with
      | zero => exact headIn_nil
      | succ n => exact headIn_cons (hrest c rfl) _

theorem OctalRun.escape {digits rest : List Char} (h : OctalRun digits rest)
    (hvalue : octalValue digits < 128) :
    C.escape (digits ++ rest) = some (Char.ofNat (octalValue digits), digits.length) := by
  rw [C.escape, h.takeWhile]
  cases digits with
  | nil => exact absurd rfl h.ne_nil
  | cons d digits => exact if_pos hvalue

/-- The octal digits at the front, three at most. -/
theorem exists_octalRun {cs : List Char} (h : (cs.take 3).takeWhile isOctal ≠ []) :
    ∃ rest, cs = (cs.take 3).takeWhile isOctal ++ rest ∧
      OctalRun ((cs.take 3).takeWhile isOctal) rest := by
  have hsplit := List.takeWhile_append_dropWhile (p := isOctal) (l := cs.take 3)
  have hlength := congrArg List.length hsplit
  rw [List.length_append, List.length_take] at hlength
  refine ⟨(cs.take 3).dropWhile isOctal ++ cs.drop 3, ?_, h, by omega, ?_, ?_⟩
  · rw [← List.append_assoc, hsplit, List.take_append_drop]
  · exact fun d hd => List.mem_takeWhile_imp hd
  · cases hdrop : (cs.take 3).dropWhile isOctal with
    | nil =>
      rw [hdrop, List.length_nil] at hlength
      by_cases hlong : 3 ≤ cs.length
      · left
        omega
      · right
        rw [List.drop_eq_nil_of_le (by omega)]
        exact headIn_nil
    | cons d rest =>
      have hd := List.head?_dropWhile_not isOctal (cs.take 3)
      rw [hdrop] at hd
      exact .inr (headIn_cons (by simpa using hd) _)

/-- What follows a backslash is a simple escape or the digits of an octal one. -/
theorem escape_eq_some {cs : List Char} {d : Char} {n : Nat} (h : escape cs = some (d, n)) :
    (∃ c rest, cs = c :: rest ∧ n = 1 ∧ simpleEscape? c = some d) ∨
      ∃ digits rest, cs = digits ++ rest ∧ n = digits.length ∧ OctalRun digits rest ∧
        octalValue digits < 128 ∧ d = Char.ofNat (octalValue digits) := by
  unfold escape at h
  split at h
  · obtain ⟨c, hc, h⟩ := Option.bind_eq_some_iff.1 h
    obtain ⟨d', hd, heq⟩ := Option.map_eq_some_iff.1 h
    cases heq
    obtain ⟨rest, rfl⟩ := List.head?_eq_some_iff.1 hc
    exact .inl ⟨c, rest, rfl, rfl, hd⟩
  · rename_i hne
    split at h
    · rename_i hvalue
      cases h
      obtain ⟨rest, hcs, hrun⟩ := exists_octalRun hne
      exact .inr ⟨_, rest, hcs, rfl, hrun, hvalue, rfl⟩
    · cases h

/-! ### Reading a body -/

/-- A body is read up to the mark behind it. -/
theorem Denotes.string {body value : List Char} (h : Denotes body value) (rest : List Char) :
    C.string (body ++ '\x22' :: rest) = some (value, body.length + 1) := by
  induction h with
  | nil => rw [List.nil_append, C.string, if_pos rfl]; rfl
  | plain hquote hbackslash hlf _ ih =>
    rw [List.cons_append, C.string, if_neg hquote, if_neg hlf, if_neg hbackslash, ih]
    rfl
  | @simple c d body value hc _ ih =>
    have hescape := escape_simple (isOctal_of_simpleEscape hc) hc (body ++ '\x22' :: rest)
    have hstring := @string_escape [c] (body ++ '\x22' :: rest) d hescape
    rw [ih] at hstring
    exact hstring
  | @octal digits body value hrun hvalue _ ih =>
    -- the mark is no octal digit, so the escape does not grow where the body ends with it
    have hfollow : OctalRun digits (body ++ '\x22' :: rest) := by
      refine ⟨hrun.ne_nil, hrun.length_le, hrun.isOctal, hrun.longest.imp_right fun hbody => ?_⟩
      cases body with
      | nil => exact headIn_cons (by decide) rest
      | cons c body => exact headIn_cons (hbody c rfl) _
    have hstring := string_escape (hfollow.escape hvalue)
    rw [ih] at hstring
    rw [List.cons_append, List.append_assoc, ← List.cons_append, hstring]
    simp
    omega

/-- The reader of strings takes a body and the mark behind it, and nothing else. -/
theorem string_eq_some_iff {cs value : List Char} {n : Nat} :
    C.string cs = some (value, n) ↔
      ∃ body rest, cs = body ++ '\x22' :: rest ∧ n = body.length + 1 ∧ Denotes body value := by
  constructor
  · intro h
    fun_induction C.string cs generalizing value n with
    | case1 => cases h
    | case2 rest =>
      cases h
      exact ⟨[], rest, rfl, rfl, .nil⟩
    | case3 => cases h
    | case4 => cases h
    | case5 rest d k hescape _ _ ih =>
      obtain ⟨⟨value', n'⟩, hstring, heq⟩ := Option.map_eq_some_iff.1 h
      cases heq
      obtain ⟨body, more, hrest, rfl, hbody⟩ := ih hstring
      rcases escape_eq_some hescape with
        ⟨c, rest, rfl, rfl, hc⟩ | ⟨digits, rest, rfl, rfl, hrun, hvalue, rfl⟩
      · obtain rfl : rest = body ++ '\x22' :: more := hrest
        exact ⟨'\\' :: c :: body, more, rfl, by simp; omega, .simple hc hbody⟩
      · obtain rfl : rest = body ++ '\x22' :: more := by rwa [List.drop_left] at hrest
        refine ⟨'\\' :: (digits ++ body), more, by simp, by simp; omega, ?_⟩
        exact .octal (hrun.of_append) hvalue hbody
    | case6 c rest hquote hlf hbackslash ih =>
      obtain ⟨⟨value', n'⟩, hstring, heq⟩ := Option.map_eq_some_iff.1 h
      cases heq
      obtain ⟨body, more, rfl, rfl, hbody⟩ := ih hstring
      exact ⟨c :: body, more, rfl, rfl, .plain hquote hbackslash hlf hbody⟩
  · rintro ⟨body, rest, rfl, rfl, hbody⟩
    exact hbody.string rest

/-! ### Marks -/

/-- How many backslashes stand at the end. -/
def backslashes (cs : List Char) : Nat :=
  (cs.reverse.takeWhile (· = '\\')).length

/-- Every quotation mark is escaped: it stands behind an odd number of backslashes. -/
def MarksEscaped (cs : List Char) : Prop :=
  ∀ before after, cs = before ++ '\x22' :: after → backslashes before % 2 = 1

/-- Only what follows the last other character counts. -/
theorem backslashes_append {c : Char} (hc : c ≠ '\\') (front back : List Char) :
    backslashes (front ++ c :: back) = backslashes back := by
  simp only [backslashes, List.reverse_append, List.reverse_cons, List.append_assoc,
    List.singleton_append]
  rw [List.takeWhile_append, List.takeWhile_cons_of_neg (by simpa using hc), List.append_nil]
  split
  · rename_i hall
    exact hall.symm
  · rfl

/-- A pair of backslashes in front does not change whether their number is odd. -/
theorem backslashes_pair (cs : List Char) :
    backslashes ('\\' :: '\\' :: cs) % 2 = backslashes cs % 2 := by
  simp only [backslashes, List.reverse_cons, List.append_assoc]
  rw [List.takeWhile_append]
  split
  · rename_i hall
    rw [List.length_append, hall]
    exact Nat.add_mod_right _ 2
  · rfl

theorem Denotes.marksEscaped {body value : List Char} (h : Denotes body value) :
    MarksEscaped body := by
  induction h with
  | nil => exact fun before _ heq => absurd heq (by simp)
  | @plain c body value hquote hbackslash _ _ ih =>
    rintro (_ | ⟨_, before⟩) after heq
    · exact absurd (List.cons.inj heq).1 hquote
    · cases heq
      rw [← List.nil_append (c :: before), backslashes_append hbackslash]
      exact ih before after rfl
  | @simple c d body value hc _ ih =>
    rintro (_ | ⟨_, _ | ⟨_, before⟩⟩) after heq
    · exact absurd (List.cons.inj heq).1 (by decide)
    · cases heq
      rfl
    · cases heq
      -- an escaped backslash completes a pair; any other character ends the backslashes
      have hodd := ih before after rfl
      by_cases hbackslash : c = '\\'
      · subst hbackslash
        exact (backslashes_pair before).trans hodd
      · rwa [← List.singleton_append, backslashes_append hbackslash]
  | @octal digits body value hrun _ _ ih =>
    have hmark : '\x22' ∉ '\\' :: digits := by
      intro hmem
      exact absurd (hrun.isOctal _ (List.mem_of_ne_of_mem (by decide) hmem)) (by decide)
    intro before after heq
    rw [← List.cons_append] at heq
    rcases List.append_eq_append_iff.1 heq with ⟨before', rfl, hbody⟩ | ⟨digits', hdigits, hafter⟩
    · -- the digits end the backslashes in front of them
      obtain ⟨front, d, rfl⟩ := List.eq_nil_or_concat digits |>.resolve_left hrun.ne_nil
      have hd : d ≠ '\\' := by
        rintro rfl
        exact absurd (hrun.isOctal '\\' (by simp)) (by decide)
      rw [List.concat_eq_append, ← List.cons_append, List.append_assoc, List.singleton_append,
        backslashes_append hd]
      exact ih before' after hbody
    · cases digits' with
      | nil => exact absurd (ih [] after hafter.symm) (by decide)
      | cons c digits' =>
        cases hafter
        exact absurd (by rw [hdigits]; simp) hmark

/-! ### Spellings -/

/-- No control character is left as it is. -/
theorem Escapes.isControl_of_mem {c : Char} {cs spelled : List Char} (h : Escapes c cs spelled) :
    ∀ d ∈ spelled, isControl d = false := by
  have hoctal : ∀ n, n < 128 → (Text.padded 8 3 n).all (fun d => !isControl d) = true := by decide
  cases h with
  | simple _ hcontrol _ =>
    exact List.forall_mem_cons.2 ⟨by decide, List.forall_mem_singleton.2 hcontrol⟩
  | octal hlt => exact List.forall_mem_cons.2 ⟨by decide, by simpa using hoctal _ hlt⟩
  | zero => exact List.forall_mem_cons.2 ⟨by decide, List.forall_mem_singleton.2 (by decide)⟩
  | plain _ _ _ hcontrol => exact List.forall_mem_singleton.2 hcontrol

theorem isControl_of_mem_escapedChars (cs : List Char) :
    ∀ d ∈ escapedChars cs, isControl d = false := by
  induction cs with
  | nil => exact fun _ hd => absurd hd List.not_mem_nil
  | cons c cs ih => exact List.forall_mem_append.2 ⟨(escapes_escapedChar c cs).isControl_of_mem, ih⟩

theorem denotes_escapedChars (cs : List Char) : Denotes (escapedChars cs) cs := by
  obtain ⟨body, rest, heq, hlength, hbody⟩ := string_eq_some_iff.1 (string_escapedChars cs [])
  obtain ⟨rfl, -⟩ := List.append_inj heq (by omega)
  exact hbody

/-- A body stands for one text at most. -/
theorem Denotes.unique {body value value' : List Char} (h : Denotes body value)
    (h' : Denotes body value') : value = value' := by
  have hread := (h.string []).symm.trans (h'.string [])
  cases hread
  rfl

/-- The spelling of a text as the body of a C string has no control character and no
    quotation mark that is not escaped, and C reads it as the text and nothing else. -/
theorem escaped_denotes_iff (v : String) :
    (∀ c ∈ (escaped v).toList, isControl c = false) ∧
      MarksEscaped (escaped v).toList ∧
      ∀ value, Denotes (escaped v).toList value ↔ value = v.toList := by
  rw [escaped, String.toList_ofList]
  have hbody := denotes_escapedChars v.toList
  refine ⟨isControl_of_mem_escapedChars v.toList, hbody.marksEscaped, fun value => ?_⟩
  constructor
  · exact fun h => h.unique hbody
  · rintro rfl
    exact hbody

end Shc.C
