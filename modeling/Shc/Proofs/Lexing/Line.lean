import Shc.Print.Program
import Shc.Proofs.Lexing.Parts
import Shc.Token.Cursor

/-!
# Reading printed text

`Reads cs kinds` says that a line `cs` consists of blanks and of tokens of these
kinds.  A source all of whose lines are read in this way has the kinds of its
lines one after the other, and then the end.

Within a line, a word or a number can stand in front of anything that does not go on
with it, a symbol that starts no longer one in front of anything at all.
-/

namespace Shc

open Token (Kind)

/-! ### Lines -/

/-- The characters of a line: any but those that end lines. -/
def InLine (c : Char) : Prop :=
  c ≠ '\n' ∧ c ≠ '\r'

instance (c : Char) : Decidable (InLine c) :=
  inferInstanceAs (Decidable (_ ∧ _))

theorem inLine_of_all {cs : List Char} (h : cs.all (fun c => decide (InLine c)) = true) :
    ∀ c ∈ cs, InLine c := by
  simpa using h

/-- A token starts with `c` in front of `rest`. -/
def StartsToken (c : Char) (rest : List Char) : Prop :=
  ∀ line column, Gap.cross line .space column (c :: rest) = .token column c rest

/-- A line that is read as tokens of these kinds. -/
inductive Reads : List Char → List Kind → Prop where
  | nil : Reads [] []
  | blank {c : Char} {cs : List Char} {kinds : List Kind} :
      Text.isBlank c = true → InLine c → Reads cs kinds → Reads (c :: cs) kinds
  | token {c : Char} {cs rest : List Char} {kind : Kind} {kinds : List Kind} :
      StartsToken c (cs ++ rest) → Lexeme.read c (cs ++ rest) = (kind, cs.length + 1) →
      kind.isTerminal = false → (∀ d ∈ c :: cs, InLine d) → Reads rest kinds →
      Reads (c :: (cs ++ rest)) (kind :: kinds)

namespace Reads

theorem inLine {cs : List Char} {kinds : List Kind} (h : Reads cs kinds) : ∀ c ∈ cs, InLine c := by
  induction h with
  | nil => simp
  | blank _ hline _ ih => exact List.forall_mem_cons.2 ⟨hline, ih⟩
  | token _ _ _ hline _ ih =>
    rw [← List.cons_append]
    exact List.forall_mem_append.2 ⟨hline, ih⟩

end Reads

/-- Lines that are read as tokens of these kinds, one line after the other. -/
inductive ReadsLines : List (List Char) → List Kind → Prop where
  | nil : ReadsLines [] []
  | cons {line : List Char} {lines : List (List Char)} {kinds kinds' : List Kind} :
      Reads line kinds → ReadsLines lines kinds' → ReadsLines (line :: lines) (kinds ++ kinds')

theorem ReadsLines.append {lines lines' : List (List Char)} {kinds kinds' : List Kind}
    (h : ReadsLines lines kinds) (h' : ReadsLines lines' kinds') :
    ReadsLines (lines ++ lines') (kinds ++ kinds') := by
  induction h with
  | nil => exact h'
  | cons hline _ ih =>
    rw [List.append_assoc]
    exact .cons hline ih

/-! ### Sources -/

theorem Gap.cross_of_ne {c : Char} (hc : c ≠ '/') (line column : Nat) (rest : List Char) :
    Gap.cross line .space column (c :: rest) =
      if Text.isBlank c then Gap.cross line .space (column + 1) rest
      else .token column c rest := by
  rw [Gap.cross]
  · intro rest' h
    exact absurd h hc
  · intro rest' h
    exact absurd h hc

namespace Cursor

section

variable (line column : Nat) (later : List (List Char)) (failure : Option ReadError)

theorem tokens_eq_of_next_eq {c c' : Cursor} (h : c.next = c'.next) : c.tokens = c'.tokens := by
  rw [tokens, h, ← tokens]

theorem tokens_blank {c : Char} (hc : Text.isBlank c = true) (cs : List Char) :
    tokens ⟨line, column, c :: cs, later, failure⟩ =
      tokens ⟨line, column + 1, cs, later, failure⟩ := by
  apply tokens_eq_of_next_eq
  have hne : c ≠ '/' := by
    rintro rfl
    exact absurd hc (by decide)
  rw [next, next, nextIn, nextIn, Gap.cross_of_ne hne, if_pos hc]
  dsimp only
  rw [List.length_cons, Nat.add_assoc column 1, Nat.add_comm 1]

theorem tokens_lineEnd (nextLine : List Char) :
    tokens ⟨line, column, [], nextLine :: later, failure⟩ =
      tokens ⟨line + 1, 0, nextLine, later, failure⟩ :=
  tokens_eq_of_next_eq rfl

theorem tokens_token {c : Char} {cs rest : List Char} {kind : Kind}
    (hstarts : StartsToken c (cs ++ rest))
    (hread : Lexeme.read c (cs ++ rest) = (kind, cs.length + 1)) (hkind : kind.isTerminal = false) :
    tokens ⟨line, column, c :: (cs ++ rest), later, failure⟩ =
      ⟨kind, ⟨⟨max line 1, column + 1⟩, ⟨max line 1, column + (cs.length + 1) + 1⟩⟩⟩ ::
        tokens ⟨line, column + (cs.length + 1), rest, later, failure⟩ := by
  have hnext : next ⟨line, column, c :: (cs ++ rest), later, failure⟩ =
      take ⟨line, column, c :: (cs ++ rest), later, failure⟩ c (cs ++ rest) := by
    rw [next, nextIn, hstarts]
  have htake : take ⟨line, column, c :: (cs ++ rest), later, failure⟩ c (cs ++ rest) =
      (⟨kind, ⟨⟨max line 1, column + 1⟩, ⟨max line 1, column + (cs.length + 1) + 1⟩⟩⟩,
        ⟨line, column + (cs.length + 1), rest, later, failure⟩) := by
    simp [take, hread, skip, loc]
  rw [tokens, hnext, htake]
  exact if_neg (by rw [Token.isTerminal, hkind]; decide)

/-- The tokens of a line that is read as some kinds come in front of those behind it. -/
theorem kinds_of_reads {cs : List Char} {kinds : List Kind} (h : Reads cs kinds) :
    ∃ column', (tokens ⟨line, column, cs, later, failure⟩).map Token.kind =
      kinds ++ (tokens ⟨line, column', [], later, failure⟩).map Token.kind := by
  induction h generalizing column with
  | nil => exact ⟨column, rfl⟩
  | blank hblank _ _ ih =>
    rw [tokens_blank line column later failure hblank]
    exact ih (column + 1)
  | token hstarts hread hkind _ _ ih =>
    have htokens := tokens_token line column later failure hstarts hread hkind
    obtain ⟨column', hrest⟩ := ih _
    exact ⟨column', by rw [htokens, List.map_cons, hrest]; rfl⟩

end

theorem kinds_of_readsLines {lines : List (List Char)} {kinds : List Kind}
    (h : ReadsLines lines kinds) (line column : Nat) :
    (tokens ⟨line, column, [], lines, none⟩).map Token.kind = kinds ++ [.eos] := by
  induction h generalizing line column with
  | nil =>
    rw [tokens]
    rfl
  | cons hline _ ih =>
    rw [tokens_lineEnd]
    obtain ⟨column', hkinds⟩ := kinds_of_reads (line + 1) 0 _ none hline
    rw [hkinds, ih, List.append_assoc]

end Cursor

/-! ### Lines of printed text -/

theorem Text.lines_append {line : List Char} (hline : ∀ c ∈ line, InLine c) (rest : List Char) :
    Text.lines (line ++ '\n' :: rest) = line :: Text.lines rest := by
  induction line with
  | nil => rfl
  | cons c line ih =>
    obtain ⟨⟨hlf, hcr⟩, hline⟩ := List.forall_mem_cons.1 hline
    have hrest := ih hline
    rw [Text.lines] at hrest ⊢
    rw [List.cons_append, Text.linesBy, if_neg hlf, if_neg (fun h => hcr h.1), hrest]

namespace Line

/-- The characters of a line in front of its line end. -/
def chars (l : Line) : List Char :=
  List.replicate (4 * l.level) ' ' ++ l.text.toList

theorem toList_render (l : Line) : l.render.toList = l.chars ++ ['\n'] := by
  simp [render, chars, Text.row]

theorem reads_chars {l : Line} {kinds : List Kind} (h : Reads l.text.toList kinds) :
    Reads l.chars kinds := by
  rw [chars]
  induction 4 * l.level with
  | zero => exact h
  | succ n ih => exact .blank (by decide) (by decide) ih

theorem renderAll_cons (l : Line) (ls : List Line) :
    renderAll (l :: ls) = l.render ++ renderAll ls :=
  rfl

theorem renderAll_append (ls ls' : List Line) :
    renderAll (ls ++ ls') = renderAll ls ++ renderAll ls' := by
  induction ls with
  | nil => simp [renderAll, Text.concat]
  | cons l ls ih => rw [List.cons_append, renderAll_cons, renderAll_cons, ih, String.append_assoc]

theorem lines_renderAll {ls : List Line} (h : ∀ l ∈ ls, ∀ c ∈ l.text.toList, InLine c) :
    Text.lines (renderAll ls).toList = ls.map chars := by
  induction ls with
  | nil => rfl
  | cons l ls ih =>
    rw [List.forall_mem_cons] at h
    have hline : ∀ c ∈ l.chars, InLine c := by
      intro c hc
      rcases List.mem_append.1 hc with hspace | htext
      · rw [List.eq_of_mem_replicate hspace]
        decide
      · exact h.1 c htext
    rw [renderAll_cons, String.toList_append, toList_render, List.append_assoc,
      List.singleton_append, Text.lines_append hline, ih h.2]
    rfl

theorem inLine_of_readsLines {ls : List Line} {kinds : List Kind}
    (h : ReadsLines (ls.map chars) kinds) : ∀ l ∈ ls, ∀ c ∈ l.text.toList, InLine c := by
  induction ls generalizing kinds with
  | nil => exact fun _ hl => absurd hl List.not_mem_nil
  | cons l ls ih =>
    cases h with
    | cons hline hlines =>
      refine List.forall_mem_cons.2 ⟨fun c hc => ?_, ih hlines⟩
      exact hline.inLine c (List.mem_append_right _ hc)

/-- Lines that are read as some kinds make a source of these kinds. -/
theorem kinds_renderAll {ls : List Line} {kinds : List Kind}
    (h : ReadsLines (ls.map chars) kinds) :
    (Source.ofString (renderAll ls)).tokens.map Token.kind = kinds ++ [.eos] := by
  rw [Source.tokens, Source.ofString, Source.ofChars, lines_renderAll (inLine_of_readsLines h)]
  exact Cursor.kinds_of_readsLines h 0 0

end Line

/-! ### Parts of lines -/

/-- What can stand behind a word or a number. -/
abbrev Stops : List Char → Prop :=
  HeadIn fun c => !Lexeme.isNamePart c

/-- A text that cannot go on with a word or a number. -/
abbrev StandsApart : String → Prop :=
  StartsIn fun c => !Lexeme.isNamePart c

/-- The text adds tokens of these kinds in front of any line with the property. -/
abbrev Spells : (List Char → Prop) → String → List Kind → Prop :=
  Adds Reads

theorem spells_space : Spells Anything " " [] := by
  intro rest kinds' _ hreads
  have hblank : Reads (' ' :: rest) kinds' := .blank (by decide) (by decide) hreads
  exact hblank

theorem spells_token {follow : List Char → Prop} {text : String} {c : Char} {cs : List Char}
    {kind : Kind} (htext : text.toList = c :: cs)
    (hstarts : ∀ rest, follow rest → StartsToken c (cs ++ rest))
    (hread : ∀ rest, follow rest → Lexeme.read c (cs ++ rest) = (kind, cs.length + 1))
    (hkind : kind.isTerminal = false) (hline : ∀ d ∈ c :: cs, InLine d) :
    Spells follow text [kind] := by
  intro rest kinds' hrest hreads
  rw [htext, List.cons_append]
  exact .token (hstarts rest hrest) (hread rest hrest) hkind hline hreads

theorem startsToken_of_ne {c : Char} (hc : c ≠ '/') (hblank : Text.isBlank c = false)
    (rest : List Char) : StartsToken c rest := by
  intro line column
  rw [Gap.cross_of_ne hc, if_neg (by rw [hblank]; decide)]

end Shc
