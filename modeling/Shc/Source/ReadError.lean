/-
  Shc/Source/ReadError.lean
  =========================
  Why a file could not be used.  `FileError` is what the file system answers,
  `ReadError` adds the one thing that can be wrong with the content: bytes that are
  no UTF-8.
-/

namespace Shc

/-- The answers of the file system that a compilation can meet. -/
inductive FileError where
  | notFound
  | alreadyExists
  | notDirectory
  | isDirectory
  | nameTooLong
  | nulInPath
  | other (message : String)
deriving DecidableEq, Repr

def FileError.message : FileError → String
  | .notFound => "No such file or directory (os error 2)"
  | .alreadyExists => "File exists (os error 17)"
  | .notDirectory => "Not a directory (os error 20)"
  | .isDirectory => "Is a directory (os error 21)"
  | .nameTooLong => "File name too long (os error 36)"
  | .nulInPath => "file name contained an unexpected NUL byte"
  | .other message => message

/-- Why no text came out of a file. -/
inductive ReadError where
  | file (error : FileError)
  | notUtf8
deriving DecidableEq, Repr

def ReadError.message : ReadError → String
  | .file error => error.message
  | .notUtf8 => "stream did not contain valid UTF-8"

end Shc
