/-
  Shc/Compile/Source.lean
  =======================
  From a source text to C.  The text is parsed, on request the program is printed
  and read back as a check, and the C text is written.
-/
import Shc.C.Generator
import Shc.Compile.Error
import Shc.Outline
import Shc.Parse.Program
import Shc.Print.Program
import Shc.Syntax.Equality

namespace Shc

/-- What a compilation is asked to do. -/
structure Options where
  /-- Print the program, read it back and compare, before writing C. -/
  roundTrip : Bool
  /-- Write globals as C globals. -/
  globals : Bool
  /-- The directory of the output, if it is not next to the input. -/
  outDir : Option String
  color : Bool
deriving DecidableEq, Repr

structure Compilation where
  program : Program
  cSource : String
deriving DecidableEq

namespace Program

/-- What the printed form of a program reads back as: an outline, or why it does not
    read back. -/
def reread (p : Program) : String :=
  match Program.parse (Source.ofString p.text) with
  | .ok q => q.outline
  | .error e => "pretty-printed source failed to parse: " ++ e.message ++ "\n"

/-- Check that the printed form of a program reads back with the same outline. -/
def checkRoundTrip (p : Program) : Except CompileError Unit :=
  if p.outline = p.reread then .ok () else .error (.roundTrip p.outline p.reread)

/-- The program without its globals, unless they are asked for. -/
def selected (p : Program) (options : Options) : Program :=
  if options.globals then p else { p with globals := [] }

def compile (p : Program) (options : Options) : Except CompileError Compilation := do
  if options.roundTrip then p.checkRoundTrip
  match (p.selected options).cText with
  | .ok text => return ⟨p, text⟩
  | .error e => throw (.c e)

theorem of_compile_eq_ok {p : Program} {options : Options} {c : Compilation}
    (h : p.compile options = .ok c) :
    c.program = p ∧ (p.selected options).cText = .ok c.cSource := by
  have hwrite : (match (p.selected options).cText with
      | .ok text => .ok ⟨p, text⟩
      | .error e => .error (.c e) : Except CompileError Compilation) = .ok c := by
    rw [compile] at h
    split at h
    · cases hcheck : p.checkRoundTrip with
      | ok => rwa [hcheck] at h
      | error e => exact nomatch hcheck ▸ h
    · exact h
  cases htext : (p.selected options).cText with
  | ok text =>
    rw [htext] at hwrite
    cases hwrite
    exact ⟨rfl, rfl⟩
  | error e => exact nomatch htext ▸ hwrite

end Program

def compileText (text : String) (options : Options) : Except CompileError Compilation :=
  match Program.parse (Source.ofString text) with
  | .ok p => p.compile options
  | .error e => .error (.parse e)

/-- A compilation comes with the program of the source and its C text. -/
theorem of_compileText_eq_ok {text : String} {options : Options} {c : Compilation}
    (h : compileText text options = .ok c) :
    Program.parse (Source.ofString text) = .ok c.program ∧
      (c.program.selected options).cText = .ok c.cSource := by
  rw [compileText] at h
  cases hparse : Program.parse (Source.ofString text) with
  | ok p =>
    rw [hparse] at h
    obtain ⟨hprogram, htext⟩ := Program.of_compile_eq_ok h
    rw [hprogram]
    exact ⟨rfl, htext⟩
  | error e =>
    rw [hparse] at h
    exact nomatch h

end Shc
