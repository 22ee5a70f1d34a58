/-
  Shc/Files/Store.lean
  ====================
  What a compilation needs of a file system: reading a file, making directories, and
  replacing a file in one step.  The same compilation then runs on a tree that is a
  value and on the files of a machine.
-/
import Shc.Files.Tree
import Shc.Source.Text

namespace Shc

/-- Where the replacement of a file failed: before anything could be written, or when
    the written text was to take its place. -/
inductive ReplaceError where
  | prepare (e : FileError)
  | commit (e : FileError)
deriving DecidableEq, Repr

/-- The operations of a file system, in a monad of its own. -/
class FileStore (m : Type → Type) where
  read : Path → m (Except FileError (List UInt8))
  /-- Make a directory and those that lead to it. -/
  makeDirs : Path → m (Except FileError Unit)
  /-- Put a text at a path in the given directory, all of it or nothing. -/
  replace : (dir path : Path) → String → m (Except ReplaceError Unit)

namespace Tree

/-- Put a text at a path in the given directory, all of it or nothing.  The text is
    written to a new file in that directory, which then takes its place. -/
def replaceIn (t : Tree) (dir path : Path) (text : String) : Except ReplaceError Tree :=
  match t.makeRoom dir with
  | .error e => .error (.prepare e)
  | .ok _ =>
    match t.replace path (Text.Utf8.encode text) with
    | .error e => .error (.commit e)
    | .ok t => .ok t

end Tree

instance : FileStore (StateM Tree) where
  read path := do return (← get).read path
  makeDirs path := modifyGet fun t => t.makeDirs path
  replace dir path text := modifyGet fun t =>
    match t.replaceIn dir path text with
    | .ok t => (.ok (), t)
    | .error e => (.error e, t)

/-- The source in a file.  A file that cannot be read is a source all the same. -/
def openSource {m : Type → Type} [Monad m] [FileStore m] (path : Path) : m Source := do
  match ← FileStore.read path with
  | .error e => return Source.unreadable (.file e)
  | .ok bytes => return Source.ofBytes bytes

end Shc
