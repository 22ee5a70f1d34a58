import Shc.C.Declarator
import Shc.C.Emission
import Shc.C.Error
import Shc.C.Expr
import Shc.C.Generator
import Shc.C.Indirection
import Shc.C.Literal
import Shc.C.Writer
import Shc.CommandLine.Arguments
import Shc.CommandLine.Run
import Shc.Compile.Error
import Shc.Compile.Events
import Shc.Compile.File
import Shc.Compile.Source
import Shc.Diagnostic
import Shc.Files.Path
import Shc.Files.Store
import Shc.Files.Tree
import Shc.Log
import Shc.Main
import Shc.Outline
import Shc.Parse.Basic
import Shc.Parse.Counter
import Shc.Parse.Error
import Shc.Parse.Expr
import Shc.Parse.Program
import Shc.Parse.Session
import Shc.Parse.Statement
import Shc.Parse.Type
import Shc.Print.Literal
import Shc.Print.Program
import Shc.Proofs.C.BlockScope
import Shc.Proofs.C.Blocks
import Shc.Proofs.C.Definition
import Shc.Proofs.C.Emission
import Shc.Proofs.C.Faults
import Shc.Proofs.C.Lexis
import Shc.Proofs.C.Meaning
import Shc.Proofs.C.OneLine
import Shc.Proofs.C.Parens
import Shc.Proofs.C.Pieces
import Shc.Proofs.C.Pointers
import Shc.Proofs.C.Program
import Shc.Proofs.C.Reader
import Shc.Proofs.C.Rows
import Shc.Proofs.C.StringBody
import Shc.Proofs.C.Structure
import Shc.Proofs.C.Writer
import Shc.Proofs.Complete.Expr
import Shc.Proofs.Complete.Program
import Shc.Proofs.Complete.Statement
import Shc.Proofs.Concatenation
import Shc.Proofs.Counter
import Shc.Proofs.ErrorPrefix
import Shc.Proofs.Files.Atomic
import Shc.Proofs.Files.FailFast
import Shc.Proofs.Files.Outputs
import Shc.Proofs.Files.Paths
import Shc.Proofs.Files.Trees
import Shc.Proofs.Grammar
import Shc.Proofs.GrammarExact
import Shc.Proofs.Layout
import Shc.Proofs.Lexing.Blanks
import Shc.Proofs.Lexing.Buffer
import Shc.Proofs.Lexing.Bytes
import Shc.Proofs.Lexing.Cover
import Shc.Proofs.Lexing.Language
import Shc.Proofs.Lexing.Line
import Shc.Proofs.Lexing.Moved
import Shc.Proofs.Lexing.Parts
import Shc.Proofs.Lexing.Place
import Shc.Proofs.Lexing.Quoted
import Shc.Proofs.Lexing.Seam
import Shc.Proofs.Lexing.Token
import Shc.Proofs.Lookahead
import Shc.Proofs.Mention
import Shc.Proofs.Nesting
import Shc.Proofs.Outline.Injective
import Shc.Proofs.Outline.Nested
import Shc.Proofs.Outline.Shape
import Shc.Proofs.Outline.Spelling
import Shc.Proofs.ParserRun
import Shc.Proofs.Places.Errors
import Shc.Proofs.Places.Excerpt
import Shc.Proofs.Places.Faithful
import Shc.Proofs.Places.Nodes
import Shc.Proofs.Places.Rendering
import Shc.Proofs.Places.Shape
import Shc.Proofs.Places.Statements
import Shc.Proofs.Primitives
import Shc.Proofs.Progress
import Shc.Proofs.Relocate.Basic
import Shc.Proofs.Relocate.Output
import Shc.Proofs.Relocate.Parser
import Shc.Proofs.RoundTrip.Normal
import Shc.Proofs.RoundTrip.Program
import Shc.Proofs.RoundTrip.Spelling
import Shc.Proofs.ScopeLinear
import Shc.Proofs.ScopeSound
import Shc.Proofs.ScopeView
import Shc.Proofs.Sound.Expr
import Shc.Proofs.Sound.Program
import Shc.Proofs.Sound.Statement
import Shc.Proofs.Termination
import Shc.Proofs.Text.Lines
import Shc.Proofs.Text.Utf8
import Shc.Scope
import Shc.Scope.Calls
import Shc.Source.Location
import Shc.Source.ReadError
import Shc.Source.Text
import Shc.Syntax.Tree
import Shc.Syntax.Operator
import Shc.Syntax.Program
import Shc.Syntax.Type
import Shc.Text.Blank
import Shc.Text.Combining
import Shc.Text.Letter
import Shc.Text.Line
import Shc.Text.Lines
import Shc.Text.Numeral
import Shc.Text.Positional
import Shc.Text.Quoted
import Shc.Text.Ranges
import Shc.Text.Row
import Shc.Text.Style
import Shc.Text.Unprinted
import Shc.Text.Utf8
import Shc.Token.Basic
import Shc.Token.Buffer
import Shc.Token.Cursor
import Shc.Token.Lexeme
import Shc.Token.Lexer
import Shc.Token.Stream
