/-
  Shc/CommandLine/Arguments.lean
  ==============================
  Reading a command line.  Arguments are taken from left to right and the first one
  that settles the matter wins: a request for the help or the version, or an argument
  that cannot be understood.  Options and files may stand in any order; behind `--`
  everything is a file.

  An option with a value takes it from the same argument or from the next one, and
  every option but `-v` may be given only once.
-/
import Shc.Compile.Source
import Shc.Files.Path

namespace Shc.CommandLine

/-- What has been asked for so far. -/
structure Arguments where
  files : List Path
  roundTrip : Bool
  pretty : Bool
  outline : Bool
  globals : Bool
  noColor : Bool
  outDir : Option Path
  verbosity : Nat
deriving DecidableEq, Repr

namespace Arguments

def empty : Arguments :=
  ⟨[], false, false, false, false, false, none, 0⟩

/-- What each compilation is asked to do. -/
def options (a : Arguments) : Options :=
  ⟨a.roundTrip, a.globals, a.outDir, !a.noColor⟩

end Arguments

inductive Request where
  | help
  | version
  | usageError
  | compile (arguments : Arguments)
deriving DecidableEq, Repr

/-- How an argument is understood: it adds to what is asked for, it needs a directory
    from the next argument, or it settles the matter. -/
inductive Step where
  | next (arguments : Arguments)
  | needsDir (arguments : Arguments)
  | settled (request : Request)
deriving DecidableEq, Repr

/-- A flag that is given now; it may not have been given before. -/
def once (given : Bool) (arguments : Arguments) : Step :=
  if given then .settled .usageError else .next arguments

/-- The output directory; it may not be empty or have been given before. -/
def setDir (a : Arguments) (dir : Path) : Step :=
  if a.outDir.isSome || dir.isEmpty then .settled .usageError
  else .next { a with outDir := some dir }

/-- One more file, which must have a name. -/
def addFile (a : Arguments) (file : Path) : Step :=
  if file.isEmpty then .settled .usageError else .next { a with files := a.files ++ [file] }

/-- A long option without a value in the same argument. -/
def long (a : Arguments) : String → Step
  | "roundtrip" => once a.roundTrip { a with roundTrip := true }
  | "pretty" => once a.pretty { a with pretty := true }
  | "dump-ast" => once a.outline { a with outline := true }
  | "globals" => once a.globals { a with globals := true }
  | "no-color" => once a.noColor { a with noColor := true }
  | "verbose" => .next { a with verbosity := a.verbosity + 1 }
  | "out-dir" => .needsDir a
  | "help" => .settled .help
  | "version" => .settled .version
  | _ => .settled .usageError

/-- A long option with its value behind `=`. -/
def longWith (a : Arguments) (name value : String) : Step :=
  if name = "out-dir" then setDir a value else .settled .usageError

/-- A row of short options behind one `-`.  The directory of `-o` is the rest of the
    row, if there is one, less a leading `=`. -/
def short (a : Arguments) : List Char → Step
  | [] => .next a
  | 'v' :: rest => short { a with verbosity := a.verbosity + 1 } rest
  | 'h' :: _ => .settled .help
  | 'V' :: _ => .settled .version
  | ['o'] => .needsDir a
  | 'o' :: '=' :: rest => setDir a (String.ofList rest)
  | 'o' :: rest => setDir a (String.ofList rest)
  | _ => .settled .usageError

/-- An argument in front of any `--`. -/
def argument (a : Arguments) (arg : String) : Step :=
  match arg.toList with
  | '-' :: '-' :: cs =>
    match cs.dropWhile (· ≠ '=') with
    | [] => long a (String.ofList cs)
    | _ :: value => longWith a (String.ofList (cs.takeWhile (· ≠ '='))) (String.ofList value)
  | '-' :: c :: cs => short a (c :: cs)
  | _ => addFile a arg

/-- Whether an argument can be the value of the option in front of it. -/
def isValue (arg : String) : Bool :=
  match arg.toList with
  | '-' :: _ :: _ => false
  | _ => true

/-- The request of a command line without further arguments. -/
def finish (a : Arguments) : Request :=
  if a.files.isEmpty then .usageError else .compile a

/-- The rest of a command line that holds only files. -/
def readFiles (a : Arguments) : List String → Request
  | [] => finish a
  | arg :: args =>
    match addFile a arg with
    | .next a => readFiles a args
    | _ => .usageError

/-- The rest of a command line; `pending` says that the next argument has to be the
    output directory. -/
def read (a : Arguments) (pending : Bool) : List String → Request
  | [] => if pending then .usageError else finish a
  | arg :: args =>
    if pending then
      match if isValue arg then setDir a arg else .settled .usageError with
      | .next a => read a false args
      | _ => .usageError
    else if arg = "--" then readFiles a args
    else
      match argument a arg with
      | .next a => read a false args
      | .needsDir a => read a true args
      | .settled request => request

def request (args : List String) : Request :=
  read .empty false args

end Shc.CommandLine
