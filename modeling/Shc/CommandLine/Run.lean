/-
  Shc/CommandLine/Run.lean
  ========================
  Running a command line.  Files are compiled one after the other and the first
  failure ends the run.  What would be printed is part of the answer, so that a run
  on a tree of files is a function.
-/
import Shc.CommandLine.Arguments
import Shc.Compile.File

namespace Shc.CommandLine

structure Report where
  exitCode : Nat
  stdout : String
  stderr : String
deriving DecidableEq, Repr

/-- The causes of an error; several are numbered. -/
def causeLines : List String → String
  | [cause] => "    " ++ cause ++ "\n"
  | causes =>
    Text.concat ((causes.zipIdx 0).map fun (cause, i) =>
      "    " ++ Text.decimal i ++ ": " ++ cause ++ "\n")

/-- An error of the file system as the run reports it. -/
def accessReport (e : AccessError) : String :=
  "Error: " ++ e.message ++ "\n\nCaused by:\n" ++ causeLines e.causes

/-- What the failure of a file prints. -/
def failureText (color : Bool) : FileFailure → String
  | .compile path text e => path ++ ":\n" ++ e.render text color
  | .access e => accessReport e

/-- What a compiled file prints on standard output. -/
def successText (a : Arguments) (c : Compilation) : String :=
  (if a.pretty then c.program.text else "") ++ (if a.outline then c.program.outline else "")

section Operations

variable {m : Type → Type} [Monad m] [FileStore m]

/-- Compile files until one fails. -/
def compileAll (a : Arguments) : List Path → m Report
  | [] => return ⟨0, "", ""⟩
  | file :: files => do
    let outcome ← compileFile file a.options
    let log := Event.lines (.ofVerbosity a.verbosity) outcome.events
    match outcome.result with
    | .error e => return ⟨1, "", log ++ failureText a.options.color e⟩
    | .ok compiled =>
      let later ← compileAll a files
      let stdout := successText a compiled.compilation ++ later.stdout
      let stderr := log ++ file ++ " -> " ++ compiled.output ++ "\n" ++ later.stderr
      return ⟨later.exitCode, stdout, stderr⟩

def versionText : String :=
  "shcc 0.1.0\n"

/-- The short form of how the command is used. -/
def usageText : String :=
  "Usage: shcc [OPTIONS] <FILE>...\n"

def helpText : String :=
  "Compile SHC source files to C\n\n" ++ usageText ++ "\n" ++
    "Arguments:\n" ++
    "  <FILE>...  Source files, compiled independently and in order\n\n" ++
    "Options:\n" ++
    "      --roundtrip      Check that the pretty-printed source parses back to the same AST\n" ++
    "      --pretty         Print the program back as SHC to stdout\n" ++
    "      --dump-ast       Print the structural AST dump to stdout\n" ++
    "  -o, --out-dir <DIR>  Write output files into DIR instead of next to the inputs\n" ++
    "      --globals        Emit top-level declarations as C globals\n" ++
    "      --no-color       Disable colored diagnostics\n" ++
    "  -v, --verbose...     Increase log output (-v, -vv)\n" ++
    "  -h, --help           Print help\n" ++
    "  -V, --version        Print version\n"

def run (args : List String) : m Report :=
  match request args with
  | .help => return ⟨0, helpText, ""⟩
  | .version => return ⟨0, versionText, ""⟩
  | .usageError => return ⟨2, "", usageText⟩
  | .compile a => compileAll a a.files

end Operations

end Shc.CommandLine
