/-
  Shc/Token/Basic.lean
  ====================
  The words of the language.  A token has a kind, which carries what the text of
  the token means (the value of a number, the characters of a string), and the span
  that it covers.  Text that is no token becomes a token of its own kind `error`;
  it and the end of the source are terminal, nothing is read after them.
-/
import Shc.Source.Location
import Shc.Source.ReadError
import Shc.Text.Quoted

namespace Shc

/-- The reserved words other than `true` and `false`. -/
inductive Keyword where
  | funKw | ifKw | elseKw | whileKw | returnKw | breakKw | continueKw | voidKw | intKw | charKw
deriving DecidableEq, Repr

namespace Keyword

def all : List Keyword :=
  [funKw, ifKw, elseKw, whileKw, returnKw, breakKw, continueKw, voidKw, intKw, charKw]

def text : Keyword → String
  | funKw => "fun"
  | ifKw => "if"
  | elseKw => "else"
  | whileKw => "while"
  | returnKw => "return"
  | breakKw => "break"
  | continueKw => "continue"
  | voidKw => "void"
  | intKw => "int"
  | charKw => "char"

end Keyword

/-- Operators and punctuation. -/
inductive Symbol where
  | eqEq | notEq | le | ge | andAnd | orOr
  | plus | minus | star | slash | percent | eq | lt | gt | bang | caret
  | lparen | rparen | lbracket | rbracket | lbrace | rbrace | comma | semicolon | colon
deriving DecidableEq, Repr

namespace Symbol

/-- How a symbol is shown.  The marker `^` may also be written `&`. -/
def text : Symbol → String
  | eqEq => "=="
  | notEq => "!="
  | le => "<="
  | ge => ">="
  | andAnd => "&&"
  | orOr => "||"
  | plus => "+"
  | minus => "-"
  | star => "*"
  | slash => "/"
  | percent => "%"
  | eq => "="
  | lt => "<"
  | gt => ">"
  | bang => "!"
  | caret => "^"
  | lparen => "("
  | rparen => ")"
  | lbracket => "["
  | rbracket => "]"
  | lbrace => "\x7b"
  | rbrace => "\x7d"
  | comma => ","
  | semicolon => ";"
  | colon => ":"

end Symbol

/-- What can be wrong with the text of a source, or with reading it. -/
inductive LexError where
  | unterminatedComment
  | unterminatedString
  | unterminatedChar
  | emptyChar
  | unknownEscape (c : Char)
  | leadingZero (digits : String)
  | integerOverflow (digits : String)
  | unexpectedChar (c : Char)
  | unreadable (error : ReadError)
deriving DecidableEq, Repr

def LexError.message : LexError → String
  | .unterminatedComment => "unterminated block comment"
  | .unterminatedString => "unterminated string literal"
  | .unterminatedChar => "unterminated character literal"
  | .emptyChar => "empty character literal"
  | .unknownEscape c => "unknown escape sequence '\\" ++ c.toString ++ "'"
  | .leadingZero digits => "invalid integer literal with leading zero: `" ++ digits ++ "`"
  | .integerOverflow digits => "integer literal out of range: `" ++ digits ++ "`"
  | .unexpectedChar c => "unexpected character '" ++ c.toString ++ "'"
  | .unreadable error => "could not read source: " ++ error.message

namespace Token

/-- What a token is, with the meaning of its text. -/
inductive Kind where
  | int (value : Nat)
  | char (value : Char)
  | string (value : String)
  | bool (value : Bool)
  | ident (name : String)
  | keyword (word : Keyword)
  | symbol (s : Symbol)
  | eos
  | error (e : LexError)
deriving DecidableEq, Repr

/-- The kind in words, as error messages name what they found. -/
def Kind.describe : Kind → String
  | .int value => "int literal " ++ Text.decimal value
  | .char value => "char literal " ++ Text.quotedChar value
  | .string value => "string literal " ++ Text.quotedString value
  | .bool true => "'true'"
  | .bool false => "'false'"
  | .ident name => "identifier '" ++ name ++ "'"
  | .keyword word => "'" ++ word.text ++ "'"
  | .symbol s => "'" ++ s.text ++ "'"
  | .eos => "end of source"
  | .error e => "invalid token (" ++ e.message ++ ")"

/-- Nothing follows the end of the source or an error. -/
def Kind.isTerminal : Kind → Bool
  | .eos | .error _ => true
  | _ => false

end Token

/-- A token: its kind and the text that it covers. -/
structure Token where
  kind : Token.Kind
  span : Span
deriving DecidableEq, Repr

namespace Token

def loc (t : Token) : Location :=
  t.span.start

/-- Whether the token is the last one of its source. -/
def isTerminal (t : Token) : Bool :=
  t.kind.isTerminal

end Token

end Shc
