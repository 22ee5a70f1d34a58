/-
  Shc/Compile/File.lean
  =====================
  Compiling one file: read it, compile its text, put the C text in its place.  The
  output appears in one step after everything else has worked out, so that a failed
  compilation leaves no output behind.
-/
import Shc.Compile.Events
import Shc.Files.Store

namespace Shc

/-- Why a file could not be read or written. -/
inductive AccessError where
  | read (path : Path) (e : ReadError)
  | makeDir (dir : Path) (e : FileError)
  | temporary (dir : Path) (e : FileError)
  | write (path : Path) (e : FileError)
deriving DecidableEq, Repr

namespace AccessError

/-- What was being done. -/
def message : AccessError → String
  | read path _ => "failed to read '" ++ path ++ "'"
  | makeDir dir _ => "failed to create '" ++ dir ++ "'"
  | temporary dir _ => "failed to create a temporary file in '" ++ dir ++ "'"
  | write path _ => "failed to write '" ++ path ++ "'"

/-- The causes, the nearest one first. -/
def causes : AccessError → List String
  | read _ e => [e.message]
  | makeDir _ e => [e.message]
  | temporary _ e => [e.message]
  | write _ e => ["failed to persist temporary file: " ++ e.message, e.message]

end AccessError

/-- Why a file did not compile. -/
inductive FileFailure where
  | compile (path : Path) (text : String) (e : CompileError)
  | access (e : AccessError)
deriving DecidableEq, Repr

def FileFailure.message : FileFailure → String
  | .compile path _ _ => "failed to compile '" ++ path ++ "'"
  | .access e => e.message

/-- A file that compiled, and where its C text is. -/
structure CompiledFile where
  compilation : Compilation
  output : Path

/-- What compiling a file came to, and what it reported on the way. -/
structure FileOutcome where
  events : List Event
  result : Except FileFailure CompiledFile

section Operations

variable {m : Type → Type} [Monad m] [FileStore m]

def readText (path : Path) : m (Except AccessError String) := do
  match ← FileStore.read path with
  | .error e => return .error (.read path (.file e))
  | .ok bytes =>
    match Text.Utf8.decode bytes with
    | none => return .error (.read path .notUtf8)
    | some cs => return .ok (String.ofList cs)

/-- Put the C text of an input in its place. -/
def writeOutput (input : Path) (cSource : String) (outDir : Option Path) :
    m (Except AccessError Path) := do
  let target := outputPath input outDir
  let dir := target.directory
  if outDir.isSome then
    if let .error e ← FileStore.makeDirs dir then return .error (.makeDir dir e)
  match ← FileStore.replace dir target cSource with
  | .error (.prepare e) => return .error (.temporary dir e)
  | .error (.commit e) => return .error (.write target e)
  | .ok _ => return .ok target

def compileFile (path : Path) (options : Options) : m FileOutcome := do
  match ← readText path with
  | .error e => return ⟨[.compiling path], .error (.access e)⟩
  | .ok text =>
    let events := .compiling path :: compileTextEvents text options
    match compileText text options with
    | .error e => return ⟨events, .error (.compile path text e)⟩
    | .ok compilation =>
      match ← writeOutput path compilation.cSource options.outDir with
      | .error e => return ⟨events, .error (.access e)⟩
      | .ok output => return ⟨events ++ [.wrote output], .ok ⟨compilation, output⟩⟩

end Operations

end Shc
