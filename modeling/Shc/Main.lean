/-
  Shc/Main.lean
  =============
  The command line program: the files of the machine as a file store, and printing
  what the run reports.
-/
import Shc.CommandLine.Run

namespace Shc.Main

/-- The number of an error of the machine; some calls report it negated. -/
def errorNumber (code : UInt32) : UInt32 :=
  if code < 0x80000000 then code else 0 - code

/-- An error of the machine as an answer of the file system. -/
def fileError : IO.Error → FileError
  | .noFileOrDirectory .. => .notFound
  | .alreadyExists .. => .alreadyExists
  | .inappropriateType _ code _ => if errorNumber code = 20 then .notDirectory else .isDirectory
  | e@(.invalidArgument _ code _) =>
    if errorNumber code = 36 then .nameTooLong else .other (toString e)
  | e => .other (toString e)

/-- Run an action of the machine and keep its failure as a value. -/
def attempt {α : Type} (action : IO α) : IO (Except FileError α) := do
  match ← action.toBaseIO with
  | .ok a => return .ok a
  | .error e => return .error (fileError e)

/-- Make a directory and those that lead to it.  Making the last one is tried first, so
    that a path below a file is refused for what it is. -/
def makeDirs (path : Path) : IO (Except FileError Unit) := do
  match ← attempt (IO.FS.createDir path) with
  | .ok _ => return .ok ()
  | .error .notDirectory => return .error .notDirectory
  | .error _ => attempt (IO.FS.createDirAll path)

def writeNew (path : Path) (text : String) : IO Unit := do
  let file ← IO.FS.Handle.mk path .writeNew
  file.putStr text
  file.flush

/-- The path from the root that leads where a path leads. -/
def fromRoot (path : Path) : IO Path := do
  if path.isAbsolute then return path
  let working ← IO.currentDir
  return Path.join working.toString path

/-- A name that changes with the time: `.tmp` and six digits. -/
def temporaryName : IO String := do
  return ".tmp" ++ Nat.repr (100000 + (← IO.monoNanosNow) % 900000)

/-- Put a text at a path by way of a new file in the same directory. -/
def replaceFile (dir path : Path) (text : String) : IO (Except ReplaceError Unit) := do
  let temporary := (← fromRoot dir).join (← temporaryName)
  match ← attempt (writeNew temporary text) with
  | .error e => return .error (.prepare e)
  | .ok _ =>
    match ← attempt (IO.FS.rename temporary path) with
    | .ok _ => return .ok ()
    | .error e =>
      let _ ← attempt (IO.FS.removeFile temporary)
      return .error (.commit e)

instance : FileStore IO where
  read path := attempt do return (← IO.FS.readBinFile path).data.toList
  makeDirs := makeDirs
  replace := replaceFile

end Shc.Main

def main (args : List String) : IO UInt32 := do
  let report ← Shc.CommandLine.run args
  IO.print report.stdout
  IO.eprint report.stderr
  return report.exitCode.toUInt32
