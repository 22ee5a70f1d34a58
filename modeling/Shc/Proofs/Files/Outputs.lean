import Shc.CommandLine.Run
import Shc.Proofs.C.Emission
import Shc.Proofs.Files.Atomic
import Shc.Proofs.GrammarExact
import Shc.Proofs.Lexing.Trailing

/-!
# The outputs of a run

After a run that succeeded each output holds the C text of an input as that was before
the run.  An output that another file was read from would have made the run fail: no C
text is a source, since none starts with a token.  Two inputs can have the same output,
if an output directory is given and they have the same name; then the last one counts.
-/

namespace Shc

/-! ### C texts are no sources -/

theorem Generator.extends_append (g : Generator) (e : Emission) :
    ∃ more, (g.append e).2.text = g.text ++ more :=
  ⟨_, g.text_write e.lines⟩

theorem Generator.extends_globals (g : Generator) (vs : List Variable) :
    ∃ more, (g.globals vs).2.text = g.text ++ more := by
  cases vs with
  | nil => exact ⟨"", String.append_empty.symm⟩
  | cons v vs => exact g.extends_append _

theorem Generator.extends_prototypes (g : Generator) (fs : List Function) :
    ∃ more, (g.prototypes fs).2.text = g.text ++ more := by
  cases fs with
  | nil => exact ⟨"", String.append_empty.symm⟩
  | cons f fs => exact g.extends_append _

/-- Every C text starts with the includes. -/
theorem Program.exists_cText_eq {p : Program} {text : String} (h : p.cText = .ok text) :
    ∃ more, text = Generator.new.preamble.text ++ more := by
  unfold cText Generator.program at h
  have hlevel := Generator.level_globals Generator.new.preamble p.globals
  have hglobals := Generator.new.preamble.extends_globals p.globals
  generalize Generator.new.preamble.globals p.globals = globals at h hlevel hglobals
  rcases globals with ⟨_ | e, g⟩
  · have hlevel' := Generator.level_prototypes g p.functions
    have hprototypes := g.extends_prototypes p.functions
    dsimp only at h
    generalize g.prototypes p.functions = prototypes at h hlevel' hprototypes
    rcases prototypes with ⟨_ | e, g'⟩
    · have hdefines := @Generator.defines_functions g' p.functions (hlevel'.trans hlevel)
      dsimp only at h
      generalize g'.functions p.functions = functions at h hdefines
      rcases functions with ⟨_ | e, g''⟩
      · rcases hglobals with ⟨first, hfirst⟩
        rcases hprototypes with ⟨second, hsecond⟩
        rcases (hdefines rfl).1 with ⟨third, hthird⟩
        cases h
        refine ⟨first ++ second ++ third, ?_⟩
        rw [hthird, hsecond, hfirst, String.append_assoc, String.append_assoc, String.append_assoc]
      · exact nomatch h
    · exact nomatch h
  · exact nomatch h

namespace Text

theorem Utf8.exists_of_decode_hash {bytes : List UInt8} {cs : List Char}
    (h : decode (35 :: bytes) = some cs) : ∃ rest, cs = '#' :: rest := by
  rw [decode, pieces, if_pos (by decide), List.mapM_cons] at h
  rcases Option.bind_eq_some_iff.1 h with ⟨c, hc, h⟩
  rcases Option.bind_eq_some_iff.1 h with ⟨rest, -, hcs⟩
  cases hc
  exact ⟨rest, (Option.some.inj hcs).symm⟩

theorem exists_lines_hash (cs : List Char) :
    ∃ line later, lines ('#' :: cs) = ('#' :: line) :: later := by
  rw [lines, linesBy, if_neg (by decide), if_neg (by simp)]
  cases linesBy '\r' '\n' cs with
  | nil => exact ⟨_, _, rfl⟩
  | cons line later => exact ⟨_, _, rfl⟩

end Text

theorem Lexeme.read_hash (rest : List Char) :
    read '#' rest = (.error (.unexpectedChar '#'), 1) := by
  cases rest <;> rfl

theorem Cursor.kind_next_hash (cs : List Char) :
    (start (Source.ofChars ('#' :: cs))).next.1.kind = .error (.unexpectedChar '#') := by
  rcases Text.exists_lines_hash cs with ⟨line, later, hlines⟩
  have hstarts := startsToken_of_ne (c := '#') (by decide) (by decide) line
  rw [Source.ofChars, hlines, start, next, nextIn, Gap.cross]
  dsimp only
  rw [nextIn, hstarts]
  dsimp only
  rw [take, Lexeme.read_hash]

theorem Program.parse_hash_ne (cs : List Char) (p : Program) :
    parse (Source.ofChars ('#' :: cs)) ≠ .ok p := by
  intro h
  rcases exists_derivation h with ⟨tree, span, htokens, -⟩
  have hkind := Cursor.kind_next_hash cs
  have hterminal : (Cursor.start (Source.ofChars ('#' :: cs))).next.1.isTerminal = true := by
    rw [Token.isTerminal, hkind]
    rfl
  have hlast := congrArg List.getLast? ((Cursor.tokens_of_terminal hterminal).symm.trans htokens)
  rw [List.getLast?_concat, List.getLast?_singleton] at hlast
  rw [Option.some.inj hlast] at hkind
  exact nomatch hkind

/-- What the generator writes does not compile. -/
theorem compileText_cText_ne {p : Program} {text : String} (h : p.cText = .ok text)
    {cs : List Char} (hdecode : Text.Utf8.decode (Text.Utf8.encode text) = some cs)
    (options : Options) (c : Compilation) : compileText (String.ofList cs) options ≠ .ok c := by
  rcases Program.exists_cText_eq h with ⟨more, rfl⟩
  obtain ⟨bytes, hbytes⟩ : ∃ bytes,
      Text.Utf8.encode (Generator.new.preamble.text ++ more) = 35 :: bytes := by
    have happend : Text.Utf8.encode (Generator.new.preamble.text ++ more) =
        Text.Utf8.encode Generator.new.preamble.text ++ Text.Utf8.encode more := by
      simp [Text.Utf8.encode]
    exact ⟨_, happend⟩
  rw [hbytes] at hdecode
  rcases Text.Utf8.exists_of_decode_hash hdecode with ⟨rest, rfl⟩
  intro hok
  have hparse := (of_compileText_eq_ok hok).1
  rw [Source.ofString, String.toList_ofList] at hparse
  exact Program.parse_hash_ne rest _ hparse

/-! ### Outputs at the same place -/

/-- The place of an output lies in a directory and has the name that the path ends in. -/
theorem Tree.exists_target {t : Tree} {p : Path} {front : List String} {name : String}
    (hpieces : p.pieces = front ++ [name ++ ".c"]) {target : Place} (h : t.locate p = .ok target) :
    ∃ middle, t.follow front p.start = .ok middle ∧ target = middle ++ [name ++ ".c"] := by
  have hfollow := locate_eq_ok h
  rw [hpieces] at hfollow
  rcases exists_leads hfollow with ⟨middle, hmiddle, -, hleads⟩
  exact ⟨middle, hmiddle, hleads.eq_of_isName (Path.isName_append_c name)⟩

theorem Place.append_name_inj {place place' : Place} {name name' : String}
    (h : place ++ [name] = place' ++ [name']) : place = place' ∧ name = name' := by
  rcases List.append_inj' h rfl with ⟨hplace, hname⟩
  exact ⟨hplace, List.singleton_inj.1 hname⟩

theorem Path.start_append_c (p : Path) : (p ++ ".c").start = p.start := by
  have habsolute : Path.isAbsolute (p ++ ".c") = p.isAbsolute := by
    by_cases hempty : p = ""
    · subst hempty
      rfl
    · exact Path.isAbsolute_append hempty ".c"
  rw [Path.start, Path.start, habsolute]

/-- Outputs with different paths are at the same place only next to one and the same input. -/
theorem Tree.source_eq_of_target_eq {t : Tree} {outDir : Option Path} {p q : Path}
    {source source' target : Place} (hp : t.locate p = .ok source) (hq : t.locate q = .ok source')
    (hp' : t.locate (outputPath p outDir) = .ok target)
    (hq' : t.locate (outputPath q outDir) = .ok target)
    (hne : outputPath p outDir ≠ outputPath q outDir) : source = source' := by
  cases outDir with
  | none =>
    have hc : Path.IsPiece ".c" := by decide
    rcases p.pieces_append hc with ⟨front, last, hpieces, houtput⟩
    rcases q.pieces_append hc with ⟨front', last', hpieces', houtput'⟩
    rcases exists_target houtput hp' with ⟨middle, hmiddle, htarget⟩
    rcases exists_target houtput' hq' with ⟨middle', hmiddle', htarget'⟩
    rcases Place.append_name_inj (htarget.symm.trans htarget') with ⟨hsame, hname⟩
    have hlast : last = last' := (String.append_left_inj ".c").1 hname
    -- from the same directory the same name leads to the same place
    have hsource := locate_eq_ok hp
    have hsource' := locate_eq_ok hq
    rw [hpieces] at hsource
    rw [hpieces'] at hsource'
    rcases follow_append_eq_ok hsource with ⟨dir, hdir, hend⟩
    rcases follow_append_eq_ok hsource' with ⟨dir', hdir', hend'⟩
    rw [Path.start_append_c] at hmiddle hmiddle'
    obtain rfl : dir = middle := Except.ok.inj (hdir.symm.trans hmiddle)
    obtain rfl : dir' = middle' := Except.ok.inj (hdir'.symm.trans hmiddle')
    subst hsame hlast
    exact Except.ok.inj (hend.symm.trans hend')
  | some dir =>
    rcases dir.pieces_join p.isPiece_fileName with ⟨front, houtput, -⟩
    rcases dir.pieces_join q.isPiece_fileName with ⟨front', houtput', -⟩
    rcases exists_target houtput hp' with ⟨middle, -, htarget⟩
    rcases exists_target houtput' hq' with ⟨middle', -, htarget'⟩
    rcases Place.append_name_inj (htarget.symm.trans htarget') with ⟨-, hname⟩
    exact absurd (congrArg dir.join hname) hne

/-! ### One file after the other -/

/-- What stands at a place is the source of a C text. -/
def Tree.Yields (options : Options) (t : Tree) (source : Place) (text : String) : Prop :=
  ∃ bytes cs c, t.get? source = some (.file bytes) ∧ Text.Utf8.decode bytes = some cs ∧
    compileText (String.ofList cs) options = .ok c ∧ c.cSource = text

theorem Tree.Yields.unique {options : Options} {t : Tree} {source : Place} {text text' : String}
    (h : t.Yields options source text) (h' : t.Yields options source text') : text = text' := by
  rcases h with ⟨bytes, cs, c, hbytes, hcs, hc, rfl⟩
  rcases h' with ⟨bytes', cs', c', hbytes', hcs', hc', rfl⟩
  cases hbytes.symm.trans hbytes'
  cases hcs.symm.trans hcs'
  cases hc.symm.trans hc'
  rfl

/-- A file that has been compiled: where it was read and what has been put where, in a tree
    that can have got new directories on the way. -/
structure Compiled (options : Options) (t : Tree) (file : Path) (t' : Tree) where
  source : Place
  target : Place
  text : String
  middle : Tree
  locate_source : t.locate file = .ok source
  yields : t.Yields options source text
  kept : ∀ place, t.Kept options.outDir middle place
  locate_target : middle.locate (outputPath file options.outDir) = .ok target
  get?_target : middle.get? target ≠ some .directory
  tree_eq : t' = middle.put target (.file (Text.Utf8.encode text))

theorem compiled_of_compileFile {options : Options} {t t' : Tree} {file : Path}
    {outcome : FileOutcome} {compiled : CompiledFile}
    (h : (compileFile file options : StateM Tree FileOutcome).run t = (outcome, t'))
    (hok : outcome.result = .ok compiled) : Nonempty (Compiled options t file t') := by
  have hran := ran_compileFile t file options
  rw [h, hok] at hran
  rcases hran with ⟨bytes, cs, hread, hdecode, hcompile, hwrote⟩
  rcases hwrote with ⟨-, middle, target, hkept, htarget, hget, rfl⟩
  rcases Tree.read_eq_ok_iff.1 hread with ⟨source, hsource, hbytes⟩
  exact ⟨⟨source, target, _, middle, hsource, ⟨bytes, cs, _, hbytes, hdecode, hcompile, rfl⟩,
    hkept, htarget, hget, rfl⟩⟩

/-- Files that have been compiled one after the other. -/
inductive CompiledAll (options : Options) : Tree → List Path → Tree → Prop where
  | nil {t : Tree} : CompiledAll options t [] t
  | cons {t t₁ t' : Tree} {file : Path} {files : List Path} :
      Compiled options t file t₁ → CompiledAll options t₁ files t' →
        CompiledAll options t (file :: files) t'

theorem compiledAll_of_exitCode {a : CommandLine.Arguments} {files : List Path} {t : Tree}
    (h : ((CommandLine.compileAll a files : StateM Tree _).run t).1.exitCode = 0) :
    CompiledAll a.options t files ((CommandLine.compileAll a files : StateM Tree _).run t).2 := by
  induction files generalizing t with
  | nil => exact .nil
  | cons file files ih =>
    rw [CommandLine.compileAll, run_bind] at h ⊢
    cases hcompile : (compileFile file a.options : StateM Tree FileOutcome).run t with
    | mk outcome t₁ =>
      rw [hcompile] at h
      dsimp only at h ⊢
      cases hresult : outcome.result with
      | error e =>
        rw [hresult] at h
        exact nomatch h
      | ok compiled =>
        rw [hresult] at h
        rcases compiled_of_compileFile hcompile hresult with ⟨hfirst⟩
        exact .cons hfirst (ih h)

/-! ### What holds during a run -/

/-- The last one of the inputs that have this output. -/
def IsLast (outDir : Option Path) (files : List Path) (output last : Path) : Prop :=
  ∃ before after, files = before ++ last :: after ∧ outputPath last outDir = output ∧
    ∀ file ∈ after, outputPath file outDir ≠ output

theorem isLast_concat (outDir : Option Path) (files : List Path) (file : Path) :
    IsLast outDir (files ++ [file]) (outputPath file outDir) file :=
  ⟨files, [], rfl, rfl, fun _ hmem => absurd hmem List.not_mem_nil⟩

theorem IsLast.concat {outDir : Option Path} {files : List Path} {output last file : Path}
    (h : IsLast outDir files output last) (hne : outputPath file outDir ≠ output) :
    IsLast outDir (files ++ [file]) output last := by
  rcases h with ⟨before, after, rfl, hlast, hafter⟩
  refine ⟨before, after ++ [file], by simp, hlast, ?_⟩
  exact List.forall_mem_append.2 ⟨hafter, List.forall_mem_singleton.2 hne⟩

/-- At the path of an output stands the C text of what stood in `t` where the input is. -/
def Tree.Holds (options : Options) (t t' : Tree) (input output : Path) : Prop :=
  ∃ source target text, t'.locate input = .ok source ∧ t.Yields options source text ∧
    t'.locate output = .ok target ∧ t'.get? target = some (.file (Text.Utf8.encode text))

/-- How a tree can look when some inputs have been compiled: there are the directories of
    before, each file is one of before or a C text, and the outputs are what they should. -/
structure Progress (options : Options) (t : Tree) (done : List Path) (t' : Tree) : Prop where
  dirs : t.DirsIn t'
  files : ∀ place bytes, t'.get? place = some (.file bytes) → t.get? place = some (.file bytes) ∨
    ∃ p text, Program.cText p = .ok text ∧ bytes = Text.Utf8.encode text
  outputs : ∀ file ∈ done, ∃ last,
    IsLast options.outDir done (outputPath file options.outDir) last ∧
      t.Holds options t' last (outputPath file options.outDir)

theorem Tree.Kept.get?_of_file {dir : Option Path} {t t' : Tree} {place : Place}
    (h : t.Kept dir t' place) {bytes : List UInt8} (hfile : t'.get? place = some (.file bytes)) :
    t.get? place = some (.file bytes) := by
  rcases h with hsame | ⟨-, hdir, -⟩
  · exact hsame.symm.trans hfile
  · exact absurd (hdir.symm.trans hfile) (by simp)

theorem Tree.Yields.exists_program {options : Options} {t : Tree} {source : Place} {text : String}
    (h : t.Yields options source text) : ∃ p, Program.cText p = .ok text := by
  rcases h with ⟨_, _, c, -, -, hc, rfl⟩
  exact ⟨_, (of_compileText_eq_ok hc).2⟩

namespace Compiled

variable {options : Options} {t t' : Tree} {file : Path} (h : Compiled options t file t')

include h

theorem dirs_middle : h.middle.DirsIn t' := by
  have hput := Tree.dirsIn_put h.get?_target (.file (Text.Utf8.encode h.text))
  rwa [← h.tree_eq] at hput

theorem dirs : t.DirsIn t' :=
  (Tree.dirsIn_of_kept h.kept).trans h.dirs_middle

theorem get?_self : t'.get? h.target = some (.file (Text.Utf8.encode h.text)) := by
  have hput := h.middle.get?_put_self (Tree.ne_nil_of_get? h.get?_target)
    (.file (Text.Utf8.encode h.text))
  rwa [← h.tree_eq] at hput

theorem get?_of_ne {place : Place} (hne : place ≠ h.target) :
    t'.get? place = h.middle.get? place := by
  have hput := h.middle.get?_put_of_ne hne (.file (Text.Utf8.encode h.text))
  rwa [← h.tree_eq] at hput

end Compiled

namespace Progress

variable {options : Options} {t t₁ t' : Tree} {done : List Path} {file : Path}

theorem start (options : Options) (t : Tree) : Progress options t [] t :=
  ⟨fun _ => id, fun _ _ => .inl, fun _ hmem => absurd hmem List.not_mem_nil⟩

/-- What has been compiled was there before the run, since no C text compiles. -/
theorem yields (h : Progress options t done t₁) (hfile : Compiled options t₁ file t') :
    t.Yields options hfile.source hfile.text := by
  rcases hfile.yields with ⟨bytes, cs, c, hbytes, hcs, hc, htext⟩
  rcases h.files _ _ hbytes with hsame | ⟨p, text, hp, rfl⟩
  · exact ⟨bytes, cs, c, hsame, hcs, hc, htext⟩
  · exact absurd hc (compileText_cText_ne hp hcs options c)

theorem holds_self (h : Progress options t done t₁) (hfile : Compiled options t₁ file t') :
    t.Holds options t' file (outputPath file options.outDir) :=
  ⟨hfile.source, hfile.target, hfile.text, Tree.locate_mono hfile.dirs hfile.locate_source,
    h.yields hfile, Tree.locate_mono hfile.dirs_middle hfile.locate_target, hfile.get?_self⟩

/-- Another output stays, or it gets the same text again. -/
theorem holds_of_ne (h : Progress options t done t₁) (hfile : Compiled options t₁ file t')
    {last : Path} (hlast : t.Holds options t₁ last (outputPath last options.outDir))
    (hne : outputPath file options.outDir ≠ outputPath last options.outDir) :
    t.Holds options t' last (outputPath last options.outDir) := by
  rcases hlast with ⟨source, target, text, hsource, hyields, htarget, hget⟩
  have hmiddle := Tree.dirsIn_of_kept hfile.kept
  refine ⟨source, target, text, Tree.locate_mono hfile.dirs hsource, hyields,
    Tree.locate_mono hfile.dirs htarget, ?_⟩
  by_cases hsame : target = hfile.target
  · subst hsame
    have hplace : hfile.source = source := Tree.source_eq_of_target_eq
      (Tree.locate_mono hmiddle hfile.locate_source) (Tree.locate_mono hmiddle hsource)
      hfile.locate_target (Tree.locate_mono hmiddle htarget) hne
    have htext : hfile.text = text := (h.yields hfile).unique (hplace ▸ hyields)
    rw [← htext]
    exact hfile.get?_self
  · rw [hfile.get?_of_ne hsame]
    exact (hfile.kept target).get?_eq_file hget

theorem step (h : Progress options t done t₁) (hfile : Compiled options t₁ file t') :
    Progress options t (done ++ [file]) t' := by
  refine ⟨h.dirs.trans hfile.dirs, ?_, ?_⟩
  · intro place bytes hget
    by_cases hsame : place = hfile.target
    · subst hsame
      rcases hfile.yields.exists_program with ⟨p, hp⟩
      cases hget.symm.trans hfile.get?_self
      exact .inr ⟨p, _, hp, rfl⟩
    · rw [hfile.get?_of_ne hsame] at hget
      exact h.files place bytes ((hfile.kept place).get?_of_file hget)
  · intro other hother
    by_cases hsame : outputPath file options.outDir = outputPath other options.outDir
    · rw [← hsame]
      exact ⟨file, isLast_concat _ _ _, h.holds_self hfile⟩
    · have hdone : other ∈ done := by
        rcases List.mem_append.1 hother with hmem | hmem
        · exact hmem
        · exact absurd (List.mem_singleton.1 hmem ▸ rfl) hsame
      rcases h.outputs other hdone with ⟨last, hlast, hholds⟩
      refine ⟨last, hlast.concat hsame, ?_⟩
      rcases hlast with ⟨-, -, -, houtput, -⟩
      rw [← houtput] at hholds hsame ⊢
      exact h.holds_of_ne hfile hholds hsame

theorem all {files : List Path} (h : Progress options t done t₁)
    (hfiles : CompiledAll options t₁ files t') : Progress options t (done ++ files) t' := by
  induction hfiles generalizing done with
  | nil => rwa [List.append_nil]
  | cons hfile _ ih =>
    rw [List.append_cons]
    exact ih (h.step hfile)

end Progress

/-! ### Whole runs -/

theorem outputPath_none_inj {p q : Path} (h : outputPath p none = outputPath q none) : p = q :=
  (String.append_left_inj ".c").1 h

namespace CommandLine

/-- After a run of a command line that exits with zero, the output of each input holds the C
    text of the last input with the same output path, compiled from what stood there before
    the run.  That input is the input itself if the outputs go next to the inputs, or if no
    other input has its output path. -/
theorem run_outputs {args : List String} {a : Arguments} (hrequest : request args = .compile a)
    {t t' : Tree} {report : Report} (hrun : (run args : StateM Tree Report).run t = (report, t'))
    (hexit : report.exitCode = 0) {file : Path} (hfile : file ∈ a.files) :
    ∃ last source bytes cs c, IsLast a.outDir a.files (outputPath file a.outDir) last ∧
      t'.locate last = .ok source ∧ t.get? source = some (.file bytes) ∧
      (∀ bytes', t.read last = .ok bytes' → bytes' = bytes) ∧
      Text.Utf8.decode bytes = some cs ∧ compileText (String.ofList cs) a.options = .ok c ∧
      t'.read (outputPath file a.outDir) = .ok (Text.Utf8.encode c.cSource) ∧
      ((a.outDir = none ∨ ∀ other ∈ a.files,
        outputPath other a.outDir = outputPath file a.outDir → other = file) → last = file) := by
  rw [run, hrequest] at hrun
  have hall := @compiledAll_of_exitCode a a.files t (by rw [hrun, hexit])
  rw [hrun] at hall
  have hprogress := (Progress.start a.options t).all hall
  rw [List.nil_append] at hprogress
  rcases hprogress.outputs file hfile with ⟨last, hlast, hholds⟩
  rcases hholds with ⟨source, target, text, hsource, hyields, htarget, hget⟩
  rcases hyields with ⟨bytes, cs, c, hbytes, hcs, hc, rfl⟩
  refine ⟨last, source, bytes, cs, c, hlast, hsource, hbytes, ?_, hcs, hc,
    Tree.read_eq_ok_iff.2 ⟨target, htarget, hget⟩, ?_⟩
  · intro bytes' hread
    rcases Tree.read_eq_ok_iff.1 hread with ⟨place, hplace, hbytes'⟩
    cases (Tree.locate_mono hprogress.dirs hplace).symm.trans hsource
    cases hbytes'.symm.trans hbytes
    rfl
  · rcases hlast with ⟨before, after, hfiles, houtput, -⟩
    rintro (hnone | hother)
    · have houtput' : outputPath last a.outDir = outputPath file a.outDir := houtput
      rw [hnone] at houtput'
      exact outputPath_none_inj houtput'
    · exact hother last (by simp [hfiles]) houtput

theorem compileAll_nil_run (a : Arguments) (t : Tree) :
    (compileAll a [] : StateM Tree _).run t = (⟨0, "", ""⟩, t) :=
  rfl

/-- A file that is read, compiled and written is followed by the next one. -/
theorem compileAll_cons_run {a : Arguments} {file : Path} {files : List Path} {t : Tree}
    {text : String} {c : Compilation} {output : Path}
    (htext : ((readText file : StateM Tree _).run t).1 = .ok text)
    (hcompile : compileText text a.options = .ok c)
    (hwrite : ((writeOutput file c.cSource a.outDir : StateM Tree _).run t).1 = .ok output) :
    let later := (compileAll a files : StateM Tree _).run
      ((writeOutput file c.cSource a.outDir : StateM Tree _).run t).2
    let all := (compileAll a (file :: files) : StateM Tree _).run t
    all.1.exitCode = later.1.exitCode ∧ all.2 = later.2 := by
  dsimp only
  rw [compileAll, run_bind, compileFile_run_of_ok htext hcompile hwrite]
  exact ⟨rfl, rfl⟩

namespace Collision

/-- Two directories with a file of the same name in each. -/
def tree : Tree :=
  let dirs := (Tree.fresh.put (Place.working ++ ["a"]) .directory).put
    (Place.working ++ ["b"]) .directory
  (dirs.put (Place.working ++ ["a", "x"]) (.file (Text.Utf8.encode "fun f():void\x7b\x7d"))).put
    (Place.working ++ ["b", "x"]) (.file [])

def arguments : Arguments :=
  { Arguments.empty with files := ["a/x", "b/x"], outDir := some "out" }

def args : List String :=
  ["-o", "out", "a/x", "b/x"]

theorem request_args : request args = .compile arguments := by
  decide +kernel

def f : Function :=
  ⟨"f", ⟨.void, 0⟩, [], [], [], ⟨1, 1⟩⟩

def first : Compilation :=
  ⟨⟨[], [f]⟩, "#include <stdio.h>\n#include <stdlib.h>\n#include <stdint.h>\n\n" ++
    "void f(void);\n\nvoid f(void) \x7b\n\x7d\n"⟩

def second : Compilation :=
  ⟨.empty, "#include <stdio.h>\n#include <stdlib.h>\n#include <stdint.h>\n\n"⟩

theorem compile_first : compileText "fun f():void\x7b\x7d" arguments.options = .ok first := by
  decide +kernel

theorem compile_second : compileText "" arguments.options = .ok second := by
  decide +kernel

/-- The tree when the first file has been compiled. -/
def between : Tree :=
  ((writeOutput "a/x" first.cSource arguments.outDir : StateM Tree _).run tree).2

theorem run_args :
    let all := (run args : StateM Tree _).run tree
    let output := (writeOutput "b/x" second.cSource arguments.outDir : StateM Tree _).run between
    all.1.exitCode = 0 ∧ all.2 = output.2 := by
  have hfirst := @compileAll_cons_run arguments "a/x" ["b/x"] tree _ first "out/x.c"
    (by decide +kernel) compile_first (by decide +kernel)
  have hsecond := @compileAll_cons_run arguments "b/x" [] between _ second "out/x.c"
    (by decide +kernel) compile_second (by decide +kernel)
  rw [compileAll_nil_run] at hsecond
  rw [run, request_args]
  exact ⟨hfirst.1.trans hsecond.1, hfirst.2.trans hsecond.2⟩

theorem read_output :
    ((run args : StateM Tree _).run tree).2.read "out/x.c" =
      .ok (Text.Utf8.encode second.cSource) := by
  rw [run_args.2]
  decide +kernel

end Collision

theorem run_outputs_sample :
    ∃ report t', request Collision.args = .compile Collision.arguments ∧
      (run Collision.args : StateM Tree _).run Collision.tree = (report, t') ∧
      report.exitCode = 0 ∧ IsLast (some "out") ["a/x", "b/x"] "out/x.c" "b/x" ∧
      t'.read "out/x.c" = .ok (Text.Utf8.encode Collision.second.cSource) := by
  have hmem : "a/x" ∈ Collision.arguments.files := List.mem_cons_self
  obtain ⟨last, source, bytes, cs, c, hlast, -, -, hbytes, hcs, hc, hread, -⟩ :=
    run_outputs Collision.request_args (Prod.eta _).symm Collision.run_args.1 hmem
  have houtput : outputPath "a/x" Collision.arguments.outDir = "out/x.c" := by decide +kernel
  rw [houtput] at hlast hread
  have hsecond : last = "b/x" := by
    rcases hlast with ⟨before, after, hfiles, -, hafter⟩
    change ["a/x", "b/x"] = before ++ last :: after at hfiles
    rcases before with _ | ⟨p, _ | ⟨q, before⟩⟩
    · cases hfiles
      exact absurd (by decide +kernel) (hafter "b/x" List.mem_cons_self)
    · cases hfiles
      rfl
    · simp at hfiles
  subst hsecond
  obtain rfl : [] = bytes := hbytes [] (by decide +kernel)
  have hdecode : Text.Utf8.decode [] = some [] := by decide +kernel
  cases hdecode.symm.trans hcs
  cases Collision.compile_second.symm.trans hc
  exact ⟨_, _, Collision.request_args, (Prod.eta _).symm, Collision.run_args.1, hlast, hread⟩

/-- Two inputs with different places, of which one has lost its output. -/
theorem run_not_own_outputs :
    ¬ ∀ (args : List String) (a : Arguments) (t t' : Tree) (report : Report),
      request args = .compile a → (run args : StateM Tree _).run t = (report, t') →
      report.exitCode = 0 → (a.files.map t.locate).Nodup → ∀ file ∈ a.files, ∃ bytes cs c,
        t.read file = .ok bytes ∧ Text.Utf8.decode bytes = some cs ∧
          compileText (String.ofList cs) a.options = .ok c ∧
          t'.read (outputPath file a.outDir) = .ok (Text.Utf8.encode c.cSource) := by
  intro h
  have hplaces : (Collision.arguments.files.map Collision.tree.locate).Nodup := by decide +kernel
  have hread : Collision.tree.read "a/x" =
      .ok (Text.Utf8.encode "fun f():void\x7b\x7d") := by decide +kernel
  have hdecode : Text.Utf8.decode (Text.Utf8.encode "fun f():void\x7b\x7d") =
      some "fun f():void\x7b\x7d".toList := by decide +kernel
  rcases h _ _ _ _ _ Collision.request_args (Prod.eta _).symm Collision.run_args.1 hplaces "a/x"
    List.mem_cons_self with ⟨bytes, cs, c, hbytes, hcs, hc, hown⟩
  cases hread.symm.trans hbytes
  cases hdecode.symm.trans hcs
  rw [String.ofList_toList] at hc
  cases Collision.compile_first.symm.trans hc
  have hsame := Except.ok.inj (hown.symm.trans Collision.read_output)
  exact absurd hsame (by decide +kernel)

end CommandLine

end Shc
