import Shc.Proofs.Outline.Spelling

/-!
# Nested lists in text

A nested list is written with parentheses, words and quoted texts, and with blanks
between them that mean nothing.  `Lists text items` says that a text is such a writing
of a row of items and can stand behind a word.  What a text is a writing of is
determined by the text (`Lists.unique`): a word ends where no character of a word
follows, a quoted text ends at the first mark that is not spelled out, and a list ends
at the parenthesis that closes it.
-/

namespace Shc

/-- A word, a quoted text, or a list of such items. -/
inductive Nested where
  | word (text : String)
  | quoted (value : String)
  | list (items : List Nested)

namespace Nested

/-! ### Items and the pieces they are written with -/

/-- What a nested list is written with. -/
inductive Piece where
  | opening
  | closing
  | word (text : String)
  | quoted (value : String)

mutual

/-- The pieces of an item. -/
def pieces : Nested → List Piece
  | .word text => [.word text]
  | .quoted value => [.quoted value]
  | .list items => .opening :: (allPieces items ++ [.closing])

/-- The pieces of items one after the other. -/
def allPieces : List Nested → List Piece
  | [] => []
  | item :: items => item.pieces ++ allPieces items

end

theorem allPieces_append (items more : List Nested) :
    allPieces (items ++ more) = allPieces items ++ allPieces more := by
  induction items with
  | nil => rfl
  | cons item items ih =>
    simp only [List.cons_append, allPieces, ih, List.append_assoc]

/-- A row of items ends here: nothing follows, or the end of the list around them. -/
def Ends (ps : List Piece) : Prop :=
  ∀ p ∈ ps.head?, p = .closing

theorem ends_nil : Ends [] := by
  simp [Ends]

theorem ends_closing (ps : List Piece) : Ends (.closing :: ps) := by
  simp [Ends]

/-- No item starts where a row of items ends. -/
theorem not_ends_pieces (item : Nested) (ps : List Piece) : ¬ Ends (item.pieces ++ ps) := by
  cases item <;> simp [Ends, pieces]

mutual

/-- The pieces of an item tell where it ends and what it is. -/
theorem pieces_append_inj : (a b : Nested) → {ps qs : List Piece} →
    a.pieces ++ ps = b.pieces ++ qs → a = b ∧ ps = qs
  | .word text, b, ps, qs, h => by
    cases b with
    | word text' => simpa [pieces] using h
    | quoted value => simp [pieces] at h
    | list items => simp [pieces] at h
  | .quoted value, b, ps, qs, h => by
    cases b with
    | word text => simp [pieces] at h
    | quoted value' => simpa [pieces] using h
    | list items => simp [pieces] at h
  | .list items, b, ps, qs, h => by
    cases b with
    | word text => simp [pieces] at h
    | quoted value => simp [pieces] at h
    | list items' =>
      simp only [pieces, List.cons_append, List.append_assoc, List.nil_append, List.cons.injEq,
        true_and] at h
      have hinner := allPieces_append_inj items items' (ends_closing _) (ends_closing _) h
      exact ⟨congrArg list hinner.1, (List.cons.inj hinner.2).2⟩

theorem allPieces_append_inj : (as bs : List Nested) → {ps qs : List Piece} → Ends ps → Ends qs →
    allPieces as ++ ps = allPieces bs ++ qs → as = bs ∧ ps = qs
  | [], [], _, _, _, _, h => ⟨rfl, h⟩
  | [], b :: bs, ps, qs, hps, _, h => by
    simp only [allPieces, List.nil_append, List.append_assoc] at h
    exact absurd (h ▸ hps) (not_ends_pieces b _)
  | a :: as, [], ps, qs, _, hqs, h => by
    simp only [allPieces, List.nil_append, List.append_assoc] at h
    exact absurd (h ▸ hqs) (not_ends_pieces a _)
  | a :: as, b :: bs, ps, qs, hps, hqs, h => by
    simp only [allPieces, List.append_assoc] at h
    have hhead := pieces_append_inj a b h
    have htail := allPieces_append_inj as bs hps hqs hhead.2
    exact ⟨congr (congrArg List.cons hhead.1) htail.1, htail.2⟩

end

/-! ### Reading the pieces of a text -/

/-- What a character means at the start of a piece. -/
inductive Class where
  | blank
  | opening
  | closing
  | quote
  | letter
deriving DecidableEq

/-- Blanks are spaces and line ends; every character without a meaning of its own belongs
    to a word. -/
def classOf (c : Char) : Class :=
  if c = ' ' ∨ c = '\n' then .blank
  else if c = '(' then .opening
  else if c = ')' then .closing
  else if c = '\x22' then .quote
  else .letter

/-- A word ends in front of such a character. -/
def stops (c : Char) : Bool :=
  classOf c ≠ .letter

/-- A text that is one word. -/
def IsWord (text : String) : Prop :=
  text.toList ≠ [] ∧ ∀ c ∈ text.toList, classOf c = .letter

instance (text : String) : Decidable (IsWord text) :=
  decidable_of_iff
    (text.toList.isEmpty = false ∧ text.toList.all (fun c => classOf c = .letter) = true)
    (by simp [IsWord])

/-- The characters are a writing of these pieces. -/
inductive Writes : List Char → List Piece → Prop where
  | nil : Writes [] []
  | blank {c : Char} {cs : List Char} {ps : List Piece} (hc : classOf c = .blank)
      (h : Writes cs ps) : Writes (c :: cs) ps
  | opening {cs : List Char} {ps : List Piece} (h : Writes cs ps) :
      Writes ('(' :: cs) (.opening :: ps)
  | closing {cs : List Char} {ps : List Piece} (h : Writes cs ps) :
      Writes (')' :: cs) (.closing :: ps)
  | word {text : String} {cs : List Char} {ps : List Piece} (htext : IsWord text)
      (hcs : HeadIn stops cs) (h : Writes cs ps) : Writes (text.toList ++ cs) (.word text :: ps)
  | quoted {value : String} {cs : List Char} {ps : List Piece} (h : Writes cs ps) :
      Writes (Text.quotedWith '\x22' value.toList ++ cs) (.quoted value :: ps)

namespace Writes

theorem eq_nil {ps : List Piece} (h : Writes [] ps) : ps = [] := by
  generalize hcs : ([] : List Char) = cs at h
  cases h with
  | nil => rfl
  | blank hc h => cases hcs
  | opening h => cases hcs
  | closing h => cases hcs
  | word htext hstop h => exact absurd (List.append_eq_nil_iff.1 hcs.symm).1 htext.1
  | quoted h => cases hcs

/-- What a reading starts with is decided by the class of the first character. -/
theorem of_cons {c : Char} {cs : List Char} {ps : List Piece} (h : Writes (c :: cs) ps) :
    match classOf c with
    | .blank => Writes cs ps
    | .opening => ∃ qs, ps = .opening :: qs ∧ Writes cs qs
    | .closing => ∃ qs, ps = .closing :: qs ∧ Writes cs qs
    | .letter => ∃ text rest qs, c :: cs = text.toList ++ rest ∧ IsWord text ∧
        HeadIn stops rest ∧ ps = .word text :: qs ∧ Writes rest qs
    | .quote => ∃ value rest qs, c :: cs = Text.quotedWith '\x22' value.toList ++ rest ∧
        ps = .quoted value :: qs ∧ Writes rest qs := by
  generalize hds : c :: cs = ds at h
  cases h with
  | nil => cases hds
  | blank hc h =>
    cases hds
    rw [hc]
    exact h
  | opening h =>
    cases hds
    exact ⟨_, rfl, h⟩
  | closing h =>
    cases hds
    exact ⟨_, rfl, h⟩
  | @word text rest qs htext hstop h =>
    have hc : classOf c = .letter := by
      apply htext.2
      obtain ⟨d, tail, htail⟩ := List.exists_cons_of_ne_nil htext.1
      rw [htail] at hds ⊢
      rw [(List.cons.inj hds).1]
      exact List.mem_cons_self
    rw [hc]
    exact ⟨text, rest, qs, rfl, htext, hstop, rfl, h⟩
  | @quoted value rest qs h =>
    cases hds
    exact ⟨value, rest, qs, rfl, rfl, h⟩

/-- A word is as long as it can be. -/
theorem word_append_inj {text text' : String} {s t : List Char} (htext : IsWord text)
    (htext' : IsWord text') (hs : HeadIn stops s) (ht : HeadIn stops t)
    (h : text.toList ++ s = text'.toList ++ t) : text = text' ∧ s = t := by
  have htake : ∀ {word rest}, IsWord word → HeadIn stops rest →
      (word.toList ++ rest).takeWhile (fun c => !stops c) = word.toList := by
    intro word rest hword hrest
    apply takeWhile_append_headIn
    · intro c hc
      simp [stops, hword.2 c hc]
    · simpa using hrest
  have hlist : text.toList = text'.toList := by
    rw [← htake htext hs, h, htake htext' ht]
  rw [hlist] at h
  exact ⟨String.toList_inj.1 hlist, List.append_cancel_left h⟩

/-- Characters are a writing of one row of pieces only. -/
theorem unique {cs : List Char} {ps qs : List Piece} (h : Writes cs ps) (h' : Writes cs qs) :
    ps = qs := by
  induction h generalizing qs with
  | nil => exact h'.eq_nil.symm
  | blank hc _ ih =>
    have hrest := h'.of_cons
    rw [hc] at hrest
    exact ih hrest
  | opening _ ih =>
    obtain ⟨qs, rfl, hrest⟩ := h'.of_cons
    rw [ih hrest]
  | closing _ ih =>
    obtain ⟨qs, rfl, hrest⟩ := h'.of_cons
    rw [ih hrest]
  | @word text rest ps htext hstop _ ih =>
    obtain ⟨c, tail, htail⟩ := List.exists_cons_of_ne_nil htext.1
    have hc : classOf c = .letter := htext.2 c (htail ▸ List.mem_cons_self)
    rw [htail, List.cons_append] at h'
    have hword := h'.of_cons
    rw [hc] at hword
    obtain ⟨text', rest', qs, heq, htext', hstop', rfl, hrest⟩ := hword
    rw [← List.cons_append, ← htail] at heq
    have hparts := word_append_inj htext htext' hstop hstop' heq
    rw [hparts.1, ih (hparts.2 ▸ hrest)]
  | @quoted value rest ps _ ih =>
    obtain ⟨value', rest', qs, heq, rfl, hrest⟩ := h'.of_cons
    have hparts := Text.quotedWith_append_inj heq
    rw [String.toList_inj.1 hparts.1, ih (hparts.2 ▸ hrest)]

end Writes

end Nested

/-! ### Texts that list items -/

open Nested

/-- The text is a writing of these items, and a word in front of it ends there. -/
structure Lists (text : String) (items : List Nested) : Prop where
  adds : Adds Writes (HeadIn stops) text (allPieces items)
  parted : text = "" ∨ StartsIn stops text

namespace Lists

variable {text text' : String} {items items' : List Nested}

theorem nil : Lists "" [] :=
  ⟨Adds.nil, .inl rfl⟩

theorem of_eq (h : Lists text items) (htext : text = text') : Lists text' items :=
  htext ▸ h

theorem append (h : Lists text items) (h' : Lists text' items') :
    Lists (text ++ text') (items ++ items') := by
  constructor
  · rw [allPieces_append]
    refine h.adds.append h'.adds fun rest hrest => ?_
    rcases h'.parted with rfl | hstarts
    · exact hrest
    · exact hstarts.headIn rest
  · rcases h.parted with rfl | hstarts
    · rw [String.empty_append]
      exact h'.parted
    · exact .inr (hstarts.append text')

/-- A text decides what it lists. -/
theorem unique (h : Lists text items) (h' : Lists text items') : items = items' := by
  have hpieces := (h.adds.whole headIn_nil .nil).unique (h'.adds.whole headIn_nil .nil)
  rw [← List.append_nil (allPieces items), ← List.append_nil (allPieces items')] at hpieces
  exact (allPieces_append_inj items items' ends_nil ends_nil hpieces).1

theorem blank {c : Char} (hc : classOf c = .blank) : Lists (String.singleton c) [] := by
  constructor
  · intro rest us _ h
    simpa [allPieces] using Writes.blank hc h
  · right
    simp [StartsIn, stops, hc]

theorem space : Lists " " [] :=
  blank (c := ' ') (by decide)

theorem lineEnd : Lists "\n" [] :=
  blank (c := '\n') (by decide)

theorem word (h : IsWord text) : Lists (" " ++ text) [.word text] := by
  constructor
  · intro rest us hrest hwrites
    rw [String.toList_append, List.append_assoc]
    exact .blank (c := ' ') (by decide) (.word h hrest hwrites)
  · exact .inr (StartsIn.append (by decide) text)

theorem quoted (value : String) : Lists (Text.quotedString value) [.quoted value] := by
  constructor
  · intro rest us _ hwrites
    rw [Text.quotedString, String.toList_ofList]
    exact .quoted hwrites
  · right
    simp [StartsIn, Text.quotedString, Text.quotedWith, stops, classOf]

/-- A list with a word at its head. -/
theorem list (start head : String) (hhead : IsWord head) (hstart : start = "(" ++ head)
    (h : Lists text items) : Lists (start ++ text ++ ")") [.list (.word head :: items)] := by
  subst hstart
  constructor
  · intro rest us _ hwrites
    have hinner : Writes (text.toList ++ ')' :: rest) (allPieces items ++ .closing :: us) :=
      h.adds _ _ (headIn_cons (by decide) _) (.closing hwrites)
    have hstop : HeadIn stops (text.toList ++ ')' :: rest) := by
      rcases h.parted with rfl | hstarts
      · exact headIn_cons (by decide) _
      · exact hstarts.headIn _
    have hwhole := Writes.opening (Writes.word hhead hstop hinner)
    simpa [allPieces, pieces] using hwhole
  · right
    rw [String.append_assoc, String.append_assoc]
    exact StartsIn.append (by decide) _

/-- A list with a word at its head and a space behind the word. -/
theorem group (start head : String) (hhead : IsWord head)
    (hstart : start = "(" ++ head ++ " ") (h : Lists (" " ++ text) items) :
    Lists (start ++ text ++ ")") [.list (.word head :: items)] := by
  have hassoc : start ++ text = "(" ++ head ++ (" " ++ text) := by
    rw [hstart, String.append_assoc]
  rw [hassoc]
  exact list _ head hhead rfl h

theorem row (n : Nat) : Lists (Text.row ' ' n) [] := by
  induction n with
  | zero => exact nil
  | succ n ih =>
    rw [Text.row_succ]
    exact space.append ih

theorem concat {α : Type} {write : α → String} {shape : α → Nested} {as : List α}
    (h : ∀ a ∈ as, Lists (write a) [shape a]) :
    Lists (Text.concat (as.map write)) (as.map shape) := by
  induction as with
  | nil => exact nil
  | cons a as ih =>
    have hfirst := h a List.mem_cons_self
    exact hfirst.append (ih fun b hb => h b (List.mem_cons_of_mem _ hb))

end Lists

end Shc
