import Shc.Compile.File
import Shc.Proofs.Files.Trees

/-!
# Compiling a file is atomic

A compilation of a file that fails leaves every file as it was.  One that succeeds puts
the C text at the path of the output and leaves every other file as it was, the input
too: the output has another name than the input.  In both cases the only other change
can be new directories on the way to the directory of the output, if one was asked for.
-/

namespace Shc

/-! ### Runs on a tree -/

theorem run_bind {σ α β : Type} (x : StateM σ α) (f : α → StateM σ β) (s : σ) :
    (x >>= f).run s = (f (x.run s).1).run (x.run s).2 :=
  rfl

theorem run_modifyGet {σ α : Type} (f : σ → α × σ) (s : σ) :
    (modifyGet f : StateM σ α).run s = f s :=
  rfl

theorem run_makeDirs (dir : Path) (t : Tree) :
    (FileStore.makeDirs dir : StateM Tree _).run t = t.makeDirs dir :=
  run_modifyGet _ t

theorem run_replace (dir path : Path) (text : String) (t : Tree) :
    (FileStore.replace dir path text : StateM Tree _).run t =
      match t.replaceIn dir path text with
      | .ok t => (.ok (), t)
      | .error e => (.error e, t) :=
  run_modifyGet _ t

/-- Reading changes nothing. -/
theorem readText_run (t : Tree) (path : Path) :
    ∃ r, (readText path : StateM Tree _).run t = (r, t) ∧ ∀ text, r = .ok text →
      ∃ bytes cs, t.read path = .ok bytes ∧ Text.Utf8.decode bytes = some cs ∧
        String.ofList cs = text := by
  have hread : (FileStore.read path : StateM Tree _).run t = (t.read path, t) := rfl
  rw [readText, run_bind, hread]
  cases t.read path with
  | error e => exact ⟨_, rfl, fun text h => nomatch h⟩
  | ok bytes =>
    dsimp only
    cases hchars : Text.Utf8.decode bytes with
    | none => exact ⟨_, rfl, fun text h => nomatch h⟩
    | some cs =>
      exact ⟨_, rfl, fun text h => ⟨bytes, cs, rfl, hchars, Except.ok.inj h⟩⟩

/-- What writing an output comes to, from a tree to a tree. -/
def Tree.Wrote (outDir : Option Path) (target : Path) (cSource : String) (t t' : Tree) :
    Except AccessError Path → Prop
  | .error _ => ∀ place, t.Kept outDir t' place
  | .ok output => output = target ∧
    ∃ t₁ place, (∀ other, t.Kept outDir t₁ other) ∧ t₁.locate target = .ok place ∧
      t₁.get? place ≠ some .directory ∧ t' = t₁.put place (.file (Text.Utf8.encode cSource))

/-- The text takes its place, once the directories are there. -/
def replaceOutput (dir target : Path) (cSource : String) :
    StateM Tree (Except AccessError Path) := do
  match ← FileStore.replace dir target cSource with
  | .error (.prepare e) => return .error (.temporary dir e)
  | .error (.commit e) => return .error (.write target e)
  | .ok _ => return .ok target

theorem wrote_replaceOutput {outDir : Option Path} {t t₁ : Tree}
    (h : ∀ place, t.Kept outDir t₁ place) (dir target : Path) (cSource : String) :
    t.Wrote outDir target cSource ((replaceOutput dir target cSource).run t₁).2
      ((replaceOutput dir target cSource).run t₁).1 := by
  rw [replaceOutput, run_bind, run_replace]
  cases hreplace : t₁.replaceIn dir target cSource with
  | ok t' =>
    obtain ⟨place, hlocate, hget, hput⟩ := Tree.replaceIn_eq_ok hreplace
    exact ⟨rfl, t₁, place, h, hlocate, hget, hput⟩
  | error e =>
    cases e with
    | prepare e => exact h
    | commit e => exact h

theorem writeOutput_none (input : Path) (cSource : String) :
    (writeOutput input cSource none : StateM Tree _) =
      replaceOutput (outputPath input none).directory (outputPath input none) cSource := by
  simp only [writeOutput, Option.isSome_none, Bool.false_eq_true, if_false]
  rfl

theorem writeOutput_some (input : Path) (cSource : String) (dir : Path) :
    (writeOutput input cSource (some dir) : StateM Tree _) =
      FileStore.makeDirs (outputPath input (some dir)).directory >>= fun
        | .error e => return .error (.makeDir (outputPath input (some dir)).directory e)
        | .ok _ => replaceOutput (outputPath input (some dir)).directory
            (outputPath input (some dir)) cSource := by
  simp only [writeOutput, Option.isSome_some, if_true]
  congr 1
  funext made
  cases made with
  | error e => rfl
  | ok u => rfl

theorem wrote_writeOutput (t : Tree) (input : Path) (cSource : String) (outDir : Option Path) :
    t.Wrote outDir (outputPath input outDir) cSource
      ((writeOutput input cSource outDir : StateM Tree _).run t).2
      ((writeOutput input cSource outDir : StateM Tree _).run t).1 := by
  cases outDir with
  | none =>
    have hsame : ∀ place, t.Kept none t place := fun _ => .inl rfl
    rw [writeOutput_none]
    exact wrote_replaceOutput hsame _ _ _
  | some dir =>
    have hname := input.isPiece_fileName
    have hstart : (outputPath input (some dir)).directory.start = dir.start := by
      rw [Path.start, outputPath, Path.isAbsolute_directory_join dir hname]
      rfl
    have hkept := fun place => (t.kept_makeDirs (p := (outputPath input (some dir)).directory)
      place).congr (Path.steps_directory_join dir hname) hstart
    rw [writeOutput_some, run_bind, run_makeDirs]
    generalize t.makeDirs (outputPath input (some dir)).directory = made at hkept ⊢
    obtain ⟨answer, t₁⟩ := made
    cases answer with
    | error e => exact hkept
    | ok u => exact wrote_replaceOutput hkept _ _ _

/-! ### Input and output -/

theorem append_c_not_mem_start (name : String) (path : Path) : name ++ ".c" ∉ path.start := by
  have hworking : name ++ ".c" ∉ Place.working := by
    simp only [Place.working, List.mem_cons, List.not_mem_nil, or_false, not_or]
    exact ⟨Path.append_c_ne name (by decide), Path.append_c_ne name (by decide)⟩
  rw [Path.start]
  split
  · exact List.not_mem_nil
  · exact hworking

/-- The file that a path leads to is not where the path of the output leads. -/
theorem place_ne_of_locate {t t' : Tree} {path : Path} {place place' : Place} {bytes : List UInt8}
    (h : t.locate path = .ok place) (hfile : t.get? place = some (.file bytes))
    {outDir : Option Path} (h' : t'.locate (outputPath path outDir) = .ok place') :
    place' ≠ place := by
  obtain ⟨front, last, hpieces, -⟩ := path.pieces_append (s := "") (by decide)
  obtain ⟨front', name, hpieces', hname⟩ := pieces_outputPath hpieces outDir
  have hfollow := Tree.locate_eq_ok h
  have hfollow' := Tree.locate_eq_ok h'
  rw [hpieces] at hfollow
  rw [hpieces'] at hfollow'
  obtain ⟨middle, hmiddle, hdir, hleads⟩ := Tree.exists_leads hfollow
  obtain ⟨middle', -, -, hleads'⟩ := Tree.exists_leads hfollow'
  obtain rfl := hleads'.eq_of_isName (Path.isName_append_c name)
  intro heq
  cases hleads with
  | idle _ => exact absurd (hdir.symm.trans hfile) (by simp)
  | name hlast =>
    -- the name of the input against the same name with something behind it
    obtain ⟨-, hnames⟩ := List.append_inj' heq rfl
    have hlength := congrArg String.length (List.singleton_inj.1 hnames)
    rw [hname hlast, String.length_append] at hlength
    exact absurd hlength (by simp)
  | back =>
    -- above a place that was reached nothing but the start can be a file
    have hmem : name ++ ".c" ∈ middle.dropLast := heq ▸ List.mem_append_right _ (by simp)
    have hne : middle.dropLast ≠ middle := by
      intro hsame
      exact absurd (hdir.symm.trans (hsame ▸ hfile)) (by simp)
    rcases Tree.get?_of_follow hmiddle (List.dropLast_prefix middle) hne with hget | ⟨hstart, -⟩
    · exact absurd (hget.symm.trans hfile) (by simp)
    · exact append_c_not_mem_start name path (hstart.subset hmem)

/-! ### Whole runs -/

/-- What compiling a file comes to, from a tree to a tree. -/
def Tree.Ran (options : Options) (path : Path) (t t' : Tree) :
    Except FileFailure CompiledFile → Prop
  | .error _ => ∀ place, t.Kept options.outDir t' place
  | .ok file => ∃ bytes cs, t.read path = .ok bytes ∧ Text.Utf8.decode bytes = some cs ∧
    compileText (String.ofList cs) options = .ok file.compilation ∧
    t.Wrote options.outDir (outputPath path options.outDir) file.compilation.cSource t'
      (.ok file.output)

/-- A file that cannot be read, compiled or written changes no file, and what is written is
    the C text of what was read. -/
theorem ran_compileFile (t : Tree) (path : Path) (options : Options) :
    t.Ran options path ((compileFile path options : StateM Tree FileOutcome).run t).2
      ((compileFile path options : StateM Tree FileOutcome).run t).1.result := by
  obtain ⟨r, hrun, htext⟩ := readText_run t path
  rw [compileFile, run_bind, hrun]
  cases r with
  | error e => exact fun _ => .inl rfl
  | ok text =>
    obtain ⟨bytes, cs, hread, hdecode, rfl⟩ := htext text rfl
    dsimp only
    cases hcompile : compileText (String.ofList cs) options with
    | error e => exact fun _ => .inl rfl
    | ok c =>
      have hwrote := wrote_writeOutput t path c.cSource options.outDir
      dsimp only
      rw [run_bind]
      generalize (writeOutput path c.cSource options.outDir : StateM Tree _).run t = written
        at hwrote ⊢
      obtain ⟨answer, t'⟩ := written
      cases answer with
      | error e => exact hwrote
      | ok output => exact ⟨bytes, cs, hread, hdecode, hcompile, hwrote⟩

/-- If compiling a file fails, every place of the tree is kept, up to new directories on the
    way to the output directory.  If it succeeds, the input was a text that compiles, the
    path of the output leads to its C text, and every place but that one is kept in the
    same sense; the input can be read as before. -/
theorem compileFile_atomic {t t' : Tree} {path : Path} {options : Options} {outcome : FileOutcome}
    (h : (compileFile path options : StateM Tree FileOutcome).run t = (outcome, t')) :
    match outcome.result with
    | .error _ => ∀ place, t.Kept options.outDir t' place
    | .ok file =>
      file.output = outputPath path options.outDir ∧
        (∃ bytes cs, t.read path = .ok bytes ∧ Text.Utf8.decode bytes = some cs ∧
          compileText (String.ofList cs) options = .ok file.compilation ∧
          t'.read path = .ok bytes) ∧
        t'.read file.output = .ok (Text.Utf8.encode file.compilation.cSource) ∧
        ∃ place, t'.locate file.output = .ok place ∧ t.get? place ≠ some .directory ∧
          ∀ other, other ≠ place → t.Kept options.outDir t' other := by
  have hran := ran_compileFile t path options
  rw [h] at hran
  obtain ⟨events, result⟩ := outcome
  cases result with
  | error e => exact hran
  | ok file =>
    obtain ⟨compilation, output⟩ := file
    obtain ⟨bytes, cs, hread, hdecode, hcompile, hwrote⟩ := hran
    obtain ⟨rfl, t₁, place, hkept, hlocate, hget, rfl⟩ := hwrote
    have hdirs := Tree.dirsIn_put hget (.file (Text.Utf8.encode compilation.cSource))
    have hlocate' := Tree.locate_mono hdirs hlocate
    have hself := t₁.get?_put_self (Tree.ne_nil_of_get? hget)
      (.file (Text.Utf8.encode compilation.cSource))
    have hothers : ∀ other, other ≠ place → t.Kept options.outDir
        (t₁.put place (.file (Text.Utf8.encode compilation.cSource))) other :=
      fun other hother => (hkept other).trans hdirs (.inl (t₁.get?_put_of_ne hother _))
    obtain ⟨source, hsource, hfile⟩ := Tree.read_eq_ok_iff.1 hread
    have hsource' := Tree.locate_mono ((Tree.dirsIn_of_kept hkept).trans hdirs) hsource
    have hne := (place_ne_of_locate hsource hfile hlocate).symm
    refine ⟨rfl, ⟨bytes, cs, hread, hdecode, hcompile, ?_⟩, ?_, place, hlocate', ?_, hothers⟩
    · exact Tree.read_eq_ok_iff.2 ⟨source, hsource', (hothers source hne).get?_eq_file hfile⟩
    · exact Tree.read_eq_ok_iff.2 ⟨place, hlocate', hself⟩
    · exact fun hdir => hget (Tree.dirsIn_of_kept hkept place hdir)

/-- A file that can be read, compiled and written. -/
theorem compileFile_run_of_ok {t : Tree} {path : Path} {options : Options} {text : String}
    {c : Compilation} {output : Path} (htext : ((readText path : StateM Tree _).run t).1 = .ok text)
    (hcompile : compileText text options = .ok c)
    (hwrite : ((writeOutput path c.cSource options.outDir : StateM Tree _).run t).1 = .ok output) :
    (compileFile path options : StateM Tree FileOutcome).run t =
      (⟨.compiling path :: compileTextEvents text options ++ [.wrote output], .ok ⟨c, output⟩⟩,
        ((writeOutput path c.cSource options.outDir : StateM Tree _).run t).2) := by
  obtain ⟨r, hrun, -⟩ := readText_run t path
  rw [hrun] at htext
  rw [compileFile, run_bind, hrun, htext]
  dsimp only
  rw [hcompile]
  dsimp only
  rw [run_bind]
  generalize (writeOutput path c.cSource options.outDir : StateM Tree _).run t = written
    at hwrite ⊢
  rw [hwrite]
  rfl

namespace Folder

/-- A working directory that holds one file. -/
def tree : Tree :=
  Tree.fresh.put (Place.working ++ ["g"]) (.file (Text.Utf8.encode "g:int;"))

def options : Options :=
  ⟨false, false, some "out/c", false⟩

def compilation : Compilation :=
  ⟨⟨[⟨"g", ⟨.int, 0⟩, ⟨1, 1⟩⟩], []⟩,
    "#include <stdio.h>\n#include <stdlib.h>\n#include <stdint.h>\n\n"⟩

theorem result_eq : ((compileFile "g" options : StateM Tree FileOutcome).run tree).1.result =
    .ok ⟨compilation, "out/c/g.c"⟩ := by
  have htext : ((readText "g" : StateM Tree _).run tree).1 = .ok "g:int;" := by decide +kernel
  have hcompile : compileText "g:int;" options = .ok compilation := by decide +kernel
  have houtput : ((writeOutput "g" compilation.cSource options.outDir : StateM Tree _).run tree).1 =
      .ok "out/c/g.c" := by decide +kernel
  rw [compileFile_run_of_ok htext hcompile houtput]

end Folder

theorem compileFile_atomic_sample :
    ∃ outcome t', (compileFile "g" Folder.options : StateM Tree FileOutcome).run Folder.tree =
        (outcome, t') ∧
      outcome.result = .ok ⟨Folder.compilation, "out/c/g.c"⟩ ∧
      t'.read "out/c/g.c" = .ok (Text.Utf8.encode Folder.compilation.cSource) ∧
      t'.read "g" = Folder.tree.read "g" := by
  have hatomic := compileFile_atomic
    (Prod.eta ((compileFile "g" Folder.options : StateM Tree FileOutcome).run Folder.tree)).symm
  rw [Folder.result_eq] at hatomic
  obtain ⟨-, ⟨bytes, cs, hread, -, -, hread'⟩, hwritten, -⟩ := hatomic
  exact ⟨_, _, (Prod.eta _).symm, Folder.result_eq, hwritten, hread'.trans hread.symm⟩

end Shc
