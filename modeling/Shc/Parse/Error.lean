/-
  Shc/Parse/Error.lean
  ====================
  Why a source is no program.  The first thing that is wrong is reported, with the
  text that it concerns.
-/
import Shc.Token.Basic

namespace Shc

/-- How many parenthesised factors, signs, argument lists, blocks, branches and loops
    may be open at once. -/
def maxNesting : Nat := 64

namespace ParseError

inductive Kind where
  | lex (e : LexError)
  | unexpected (expected : String) (found : Token.Kind)
  | undeclaredVariable (name : String)
  | duplicateDeclaration (name : String)
  | multipleDeclarations
  | markerWithoutVariable
  | nestingTooDeep
deriving DecidableEq, Repr

def Kind.message : Kind → String
  | .lex e => e.message
  | .unexpected expected found => "expected " ++ expected ++ ", found " ++ found.describe
  | .undeclaredVariable name => "use of undeclared variable '" ++ name ++ "'"
  | .duplicateDeclaration name => "'" ++ name ++ "' is already declared in this function"
  | .multipleDeclarations =>
    "multiple declarations on one line are not allowed; use separate lines"
  | .markerWithoutVariable => "'^' must be followed by a variable name"
  | .nestingTooDeep => "nesting exceeds the limit of " ++ Text.decimal maxNesting ++ " levels"

end ParseError

/-- What is wrong, and the text that it concerns. -/
structure ParseError where
  kind : ParseError.Kind
  span : Span
deriving DecidableEq, Repr

/-- The error in words, with its place. -/
def ParseError.message (e : ParseError) : String :=
  "Parse error at " ++ e.span.start.describe ++ ": " ++ e.kind.message

end Shc
