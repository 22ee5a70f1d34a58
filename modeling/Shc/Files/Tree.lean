/-
  Shc/Files/Tree.lean
  ===================
  A tree of directories and regular files.  A place in the tree is the row of names
  that leads to it from the root, and the root is the empty row.  Each operation
  answers as a file system does, by an error or by the tree after it.

  The working directory has a name drawn at random, so what lies in it is reached from
  itself only.  Around it stands what every machine has: the directories at the root,
  and the device that is always empty.
-/
import Shc.Files.Path
import Shc.Source.ReadError
import Shc.Text.Utf8

namespace Shc

/-- What is wrong with the text of a path whatever it leads to. -/
def Path.fault? (p : Path) : Option FileError :=
  if '\x00' ∈ p.toList then some .nulInPath
  else if Path.maxBytes < p.utf8ByteSize then some .nameTooLong
  else none

inductive Entry where
  | file (bytes : List UInt8)
  | directory
deriving DecidableEq, Repr

/-- A place, as the names that lead to it from the root. -/
abbrev Place := List String

def Place.working : Place :=
  ["tmp", Path.drawnName]

/-- The path that leads to a place from the root. -/
def Place.path (place : Place) : Path :=
  "/" ++ Text.joined "/" place

/-- The place where a path starts. -/
def Path.start (p : Path) : Place :=
  if p.isAbsolute then [] else Place.working

/-- The path from the root that leads where a path leads. -/
def Path.fromRoot (p : Path) : Path :=
  if p.isAbsolute then p else Place.working.path.join p

/-- The entries of a file system, each at its place.  The root has none. -/
structure Tree where
  entries : List (Place × Entry)
deriving DecidableEq, Repr

namespace Tree

/-- The names of the directories at the root. -/
def rootDirs : List String :=
  ["bin", "boot", "dev", "etc", "home", "lib", "media", "mnt", "opt", "proc", "root", "run",
    "sbin", "srv", "sys", "tmp", "usr", "var"]

/-- The file system around a working directory that holds nothing. -/
def fresh : Tree :=
  ⟨rootDirs.map (fun name => ([name], .directory)) ++
    [(["dev", "null"], .file []), (Place.working, .directory)]⟩

/-- What stands at a place.  The root is always there. -/
def get? (t : Tree) (place : Place) : Option Entry :=
  if place = [] then some .directory else (t.entries.find? (·.1 = place)).map (·.2)

/-- Put an entry at a place, instead of what was there. -/
def put (t : Tree) (place : Place) (entry : Entry) : Tree :=
  ⟨t.entries.filter (·.1 ≠ place) ++ [(place, entry)]⟩

/-- What lies below the working directory, by the names that lead to it from there. -/
def contents (t : Tree) : List (Place × Entry) :=
  t.entries.filterMap fun (place, entry) =>
    match Place.working.isPrefixOf? place with
    | some (name :: names) => some (name :: names, entry)
    | _ => none

/-- Follow the pieces of a path from a place.  A piece can only be followed from a
    directory, also one that leads nowhere, and a name is looked up there only if it
    is not too long. -/
def follow (t : Tree) : List String → Place → Except FileError Place
  | [], place => .ok place
  | piece :: pieces, place =>
    match t.get? place with
    | none => .error .notFound
    | some (.file _) => .error .notDirectory
    | some .directory =>
      if Path.isIdle piece then t.follow pieces place
      else if piece = ".." then t.follow pieces place.dropLast
      else if Path.maxNameBytes < piece.utf8ByteSize then .error .nameTooLong
      else t.follow pieces (place ++ [piece])

/-- The place that a path leads to.  The empty path leads nowhere. -/
def locate (t : Tree) (p : Path) : Except FileError Place :=
  match p.fault? with
  | some e => .error e
  | none => if p.isEmpty then .error .notFound else t.follow p.pieces p.start

def read (t : Tree) (p : Path) : Except FileError (List UInt8) := do
  match t.get? (← t.locate p) with
  | none => throw .notFound
  | some .directory => throw .isDirectory
  | some (.file bytes) => return bytes

/-- Make one directory, at the end of the given steps from a place. -/
def makeDir (t : Tree) (start : Place) (steps : List String) : Except FileError Tree := do
  let place ← t.follow steps start
  match t.get? place with
  | some _ => throw .alreadyExists
  | none => return t.put place .directory

/-- Whether the steps from a place lead to a directory. -/
def isDirAt (t : Tree) (start : Place) (steps : List String) : Bool :=
  match t.follow steps start with
  | .ok place => t.get? place = some .directory
  | .error _ => false

/-- Make one directory; that it is there already is no failure. -/
def ensureDir (t : Tree) (start : Place) (steps : List String) : Except FileError Unit × Tree :=
  match t.makeDir start steps with
  | .ok t => (.ok (), t)
  | .error e => (if t.isDirAt start steps then .ok () else .error e, t)

/-- Make a directory and those that lead to it; the steps are given last one first. -/
def makeDirsBack (t : Tree) (start : Place) : List String → Except FileError Unit × Tree
  | [] => (.ok (), t)
  | step :: back =>
    match t.ensureDir start (step :: back).reverse with
    | (.error .notFound, t) =>
      match t.makeDirsBack start back with
      | (.ok _, t) => t.ensureDir start (step :: back).reverse
      | (.error e, t) => (.error e, t)
    | answer => answer

/-- Make a directory and those that lead to it, as far as they are missing. -/
def makeDirs (t : Tree) (p : Path) : Except FileError Unit × Tree :=
  match p.fault? with
  | some e => (.error e, t)
  | none => t.makeDirsBack p.start p.steps.reverse

/-- The place of a directory that is there. -/
def locateDir (t : Tree) (p : Path) : Except FileError Place := do
  let place ← t.locate p
  match t.get? place with
  | none => throw .notFound
  | some (.file _) => throw .notDirectory
  | some .directory => return place

/-- Whether a file can be made in a directory under a name drawn at random.  Its path
    from the root must not be too long, and the directory must be there. -/
def makeRoom (t : Tree) (dir : Path) : Except FileError Unit := do
  if Path.maxBytes < (dir.fromRoot.join Path.drawnName).utf8ByteSize then throw .nameTooLong
  discard (t.locateDir dir)

/-- Put a file at a path, instead of one that may be there. -/
def replace (t : Tree) (p : Path) (bytes : List UInt8) : Except FileError Tree := do
  let place ← t.locate p
  match t.get? place with
  | some .directory => throw .isDirectory
  | _ => return t.put place (.file bytes)

end Tree

end Shc
