import Shc.Proofs.Files.Outputs

/-!
# A run stops at the first failure

A command line with several files is a sequence of compilations.  Each of them reads the
tree that those before it have left and leaves a tree to those behind it.  The first one
that fails ends the run: nothing behind it is read, written or printed.  A file that fails
may leave new directories, but the regular files are those of before, so that the files
after a run are what the compilations in front of the failure have left.
-/

namespace Shc

namespace Tree

/-- What compiling a file on a tree comes to. -/
def result (t : Tree) (options : Options) (file : Path) : Except FileFailure CompiledFile :=
  ((compileFile file options : StateM Tree FileOutcome).run t).1.result

/-- The tree that compiling a file leaves. -/
def left (t : Tree) (options : Options) (file : Path) : Tree :=
  ((compileFile file options : StateM Tree FileOutcome).run t).2

/-- The tree that compiling files one after the other leaves. -/
def leftByAll (t : Tree) (options : Options) (files : List Path) : Tree :=
  files.foldl (fun t file => t.left options file) t

/-- The same regular files stand at the same places. -/
def SameFiles (t t' : Tree) : Prop :=
  ∀ place bytes, t.get? place = some (.file bytes) ↔ t'.get? place = some (.file bytes)

theorem SameFiles.refl (t : Tree) : t.SameFiles t :=
  fun _ _ => Iff.rfl

theorem sameFiles_of_kept {dir : Option Path} {t t' : Tree} (h : ∀ place, t.Kept dir t' place) :
    t'.SameFiles t := by
  intro place bytes
  constructor
  · intro hfile
    exact (h place).get?_of_file hfile
  · intro hfile
    exact (h place).get?_eq_file hfile

/-- A file that fails leaves the regular files as they were. -/
theorem sameFiles_left {t : Tree} {options : Options} {file : Path} {e : FileFailure}
    (h : t.result options file = .error e) : (t.left options file).SameFiles t := by
  have hran := ran_compileFile t file options
  rw [← result, h] at hran
  exact sameFiles_of_kept hran

end Tree

/-- The files in front of index `k` compile, each on the tree that those before it have left,
    and come to `compiled`; the file at `k`, if there is one, fails on the tree that they have
    left. -/
structure FirstFailure (options : Options) (t : Tree) (files : List Path) (k : Nat)
    (compiled : List CompiledFile) : Prop where
  le_length : k ≤ files.length
  length_eq : compiled.length = k
  ok : ∀ i file c, files[i]? = some file → compiled[i]? = some c →
    (t.leftByAll options (files.take i)).result options file = .ok c
  fails : ∀ file, files[k]? = some file →
    ∃ e, (t.leftByAll options (files.take k)).result options file = .error e

namespace FirstFailure

variable {options : Options} {t : Tree} {file : Path} {files : List Path}

theorem nil : FirstFailure options t [] 0 [] := by
  refine ⟨Nat.le_refl 0, rfl, ?_, ?_⟩
  · intro i file c hfile
    simp at hfile
  · intro file hfile
    simp at hfile

theorem here {e : FileFailure} (h : t.result options file = .error e) :
    FirstFailure options t (file :: files) 0 [] := by
  refine ⟨Nat.zero_le _, rfl, ?_, ?_⟩
  · intro i file' c _ hc
    simp at hc
  · intro file' hfile
    obtain rfl : file = file' := by simpa using hfile
    exact ⟨e, h⟩

theorem later {c : CompiledFile} {k : Nat} {compiled : List CompiledFile}
    (h : t.result options file = .ok c)
    (hlater : FirstFailure options (t.left options file) files k compiled) :
    FirstFailure options t (file :: files) (k + 1) (c :: compiled) := by
  refine ⟨Nat.succ_le_succ hlater.le_length, congrArg (· + 1) hlater.length_eq, ?_, ?_⟩
  · intro i file' c' hfile hc
    cases i with
    | zero =>
      obtain rfl : file = file' := by simpa using hfile
      obtain rfl : c = c' := by simpa using hc
      exact h
    | succ i => exact hlater.ok i file' c' (by simpa using hfile) (by simpa using hc)
  · intro file' hfile
    exact hlater.fails file' (by simpa using hfile)

end FirstFailure

namespace CommandLine

/-! ### One file of a run -/

section

variable {a : Arguments} {t : Tree} {file : Path}

/-- A file that fails ends the run. -/
theorem compileAll_of_error {e : FileFailure} (h : t.result a.options file = .error e)
    (files : List Path) :
    ∃ stderr, (compileAll a (file :: files) : StateM Tree _).run t =
      (⟨1, "", stderr⟩, t.left a.options file) := by
  rw [Tree.result] at h
  rw [Tree.left, compileAll, run_bind]
  generalize (compileFile file a.options : StateM Tree FileOutcome).run t = ran at h ⊢
  rw [h]
  exact ⟨_, rfl⟩

/-- A file that compiles prints what was asked for, and the run goes on. -/
theorem compileAll_of_ok {c : CompiledFile} (h : t.result a.options file = .ok c)
    (files : List Path) :
    ∃ stderr, (compileAll a (file :: files) : StateM Tree _).run t =
      (⟨((compileAll a files : StateM Tree _).run (t.left a.options file)).1.exitCode,
          successText a c.compilation ++
            ((compileAll a files : StateM Tree _).run (t.left a.options file)).1.stdout, stderr⟩,
        ((compileAll a files : StateM Tree _).run (t.left a.options file)).2) := by
  rw [Tree.result] at h
  rw [Tree.left, compileAll, run_bind]
  generalize (compileFile file a.options : StateM Tree FileOutcome).run t = ran at h ⊢
  rw [h]
  exact ⟨_, rfl⟩

end

/-! ### Whole runs -/

/-- How a run over files ends when `k` of them compile, and the file at `k` does not. -/
structure Stopped (a : Arguments) (t : Tree) (files : List Path) (k : Nat)
    (compiled : List CompiledFile) (ran : Report × Tree) : Prop where
  exitCode : ran.1.exitCode = if k = files.length then 0 else 1
  files : ran.2.SameFiles (t.leftByAll a.options (files.take k))
  stdout : ran.1.stdout = Text.concat (compiled.map fun c =>
    (if a.pretty then c.compilation.program.text else "") ++
      (if a.outline then c.compilation.program.outline else ""))

theorem stopped_compileAll (a : Arguments) (files : List Path) (t : Tree) :
    ∃ k compiled, FirstFailure a.options t files k compiled ∧
      Stopped a t files k compiled ((compileAll a files : StateM Tree _).run t) := by
  induction files generalizing t with
  | nil => exact ⟨0, [], .nil, rfl, .refl t, rfl⟩
  | cons file files ih =>
    cases hresult : t.result a.options file with
    | error e =>
      rcases compileAll_of_error hresult files with ⟨stderr, hrun⟩
      refine ⟨0, [], .here hresult, ?_⟩
      rw [hrun]
      exact ⟨rfl, Tree.sameFiles_left hresult, rfl⟩
    | ok c =>
      rcases ih (t.left a.options file) with ⟨k, compiled, hfirst, hstopped⟩
      rcases compileAll_of_ok hresult files with ⟨stderr, hrun⟩
      refine ⟨k + 1, c :: compiled, .later hresult hfirst, ?_⟩
      rw [hrun]
      refine ⟨?_, hstopped.files, ?_⟩
      · rw [hstopped.exitCode, List.length_cons]
        simp only [Nat.add_right_cancel_iff]
      · rw [hstopped.stdout]
        rfl

/-- A command line that names files compiles them in order up to the first one that fails on
    the tree that those before it have left.  The run exits with zero if there is none and with
    one else, the regular files are what the files before the failure have left, and what is
    printed are the programs of these files, in the forms that were asked for. -/
theorem run_failFast {args : List String} {a : Arguments} (hrequest : request args = .compile a)
    (t : Tree) :
    ∃ k compiled, FirstFailure a.options t a.files k compiled ∧
      Stopped a t a.files k compiled ((run args : StateM Tree Report).run t) := by
  rw [run, hrequest]
  exact stopped_compileAll a a.files t

namespace Interrupted

/-- The second of three files is not there. -/
def args : List String :=
  ["--pretty", "g", "h", "g"]

def arguments : Arguments :=
  { Arguments.empty with files := ["g", "h", "g"], pretty := true }

theorem request_args : request args = .compile arguments := by
  decide +kernel

theorem compile_first :
    Folder.tree.result arguments.options "g" = .ok ⟨Folder.compilation, "g.c"⟩ ∧
      Folder.tree.left arguments.options "g" =
        ((writeOutput "g" Folder.compilation.cSource none : StateM Tree _).run Folder.tree).2 := by
  have hcompile : compileText "g:int;" arguments.options = .ok Folder.compilation := by
    decide +kernel
  have hrun := @compileFile_run_of_ok Folder.tree "g" arguments.options _ _ "g.c"
    (by decide +kernel) hcompile (by decide +kernel)
  rw [Tree.result, Tree.left, hrun]
  exact ⟨rfl, rfl⟩

theorem compile_second :
    ∃ e, (Folder.tree.left arguments.options "g").result arguments.options "h" = .error e := by
  have hread : (Folder.tree.left arguments.options "g").read "h" = .error .notFound := by
    rw [compile_first.2]
    decide +kernel
  have hran := ran_compileFile (Folder.tree.left arguments.options "g") "h" arguments.options
  rw [← Tree.result] at hran
  cases hresult : (Folder.tree.left arguments.options "g").result arguments.options "h" with
  | error e => exact ⟨e, rfl⟩
  | ok file =>
    rw [hresult] at hran
    obtain ⟨bytes, cs, hbytes, -⟩ := hran
    cases hbytes.symm.trans hread

end Interrupted

theorem run_failFast_sample :
    ∃ report t', request Interrupted.args = .compile Interrupted.arguments ∧
      (run Interrupted.args : StateM Tree Report).run Folder.tree = (report, t') ∧
      report.exitCode = 1 ∧ report.stdout = "g : int;\n" ∧
      t'.SameFiles (Folder.tree.left Interrupted.arguments.options "g") := by
  rcases run_failFast Interrupted.request_args Folder.tree with ⟨k, compiled, hfirst, hstopped⟩
  obtain ⟨hle, rfl, hok, hfails⟩ := hfirst
  refine ⟨_, _, Interrupted.request_args, (Prod.eta _).symm, ?_⟩
  rcases compiled with _ | ⟨c, _ | ⟨c', compiled⟩⟩
  · rcases hfails "g" rfl with ⟨e, he⟩
    cases he.symm.trans Interrupted.compile_first.1
  · have hfirst := hok 0 "g" c rfl rfl
    cases hfirst.symm.trans Interrupted.compile_first.1
    exact ⟨hstopped.exitCode, hstopped.stdout.trans (by decide +kernel), hstopped.files⟩
  · have hsecond := hok 1 "h" c' rfl rfl
    rcases Interrupted.compile_second with ⟨e, he⟩
    cases he.symm.trans hsecond

end CommandLine

end Shc
