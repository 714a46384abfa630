import PropContract.Limits
import PropContract.Text.ByteClass
import PropContract.Text.Source
import PropContract.Text.Escape
import PropContract.Diagnostic.Message
import PropContract.Token.Kind
import PropContract.Token.Trivia
import PropContract.Token.Opaque
import PropContract.Token.Scan
import PropContract.Token.Lexer
import PropContract.Tree.Node
import PropContract.Tree.Arena
import PropContract.Parse.State
import PropContract.Parse.Expression
import PropContract.Parse.Pattern
import PropContract.Parse.Statement
import PropContract.Parse.Module
import PropContract.Entries
import PropContract.Scope.Symbol
import PropContract.Scope.Declaration
import PropContract.Scope.Basic
import PropContract.Text.Alphanumeric
import PropContract.Text.Lowercase
import PropContract.Text.Numeral
import PropContract.Contract.Vocabulary
import PropContract.Contract.Model
import PropContract.Contract.Violation
import PropContract.Contract.NameEquivalence
import PropContract.Contract.Component
import PropContract.File.Path
import PropContract.Contract.Classify
import PropContract.Contract.Override
import PropContract.Contract.Merge
import PropContract.Contract.Check
import PropContract.Text.LineMap
import PropContract.Decimal.Shortest
import PropContract.Json.Value
import PropContract.Report.Reporter
import PropContract.Contract.ModelJson
import PropContract.Contract.FileCheck
import PropContract.Glob.BytePattern
import PropContract.Glob.Part
import PropContract.Glob.Parser
import PropContract.Glob.Set
import PropContract.Json.Reader
import PropContract.Command.Arguments
import PropContract.Command.Config
import PropContract.Command.Options
import PropContract.Command.LogFormat
import PropContract.File.System
import PropContract.File.Tree
import PropContract.Command.Run
import PropContract.Command.Program
import PropContract.Main
import PropContract.Proofs.Entries
import PropContract.Proofs.Contract.Override
import PropContract.Proofs.Contract.Merge
import PropContract.Proofs.Contract.Coverage
import PropContract.Proofs.Contract.ShapeGraph
import PropContract.Proofs.Contract.Cycles
import PropContract.Proofs.Text.Escape
import PropContract.Proofs.Token.Piece
import PropContract.Proofs.Parse.State
import PropContract.Proofs.Parse.Written
import PropContract.Proofs.Parse.Expression
import PropContract.Proofs.Parse.Module
import PropContract.Proofs.Parse.Printed
import PropContract.Proofs.Contract.DeclaredType
import PropContract.Proofs.Contract.Reading
import PropContract.Proofs.Contract.RoundTrip
import PropContract.Proofs.Text.Boundary
import PropContract.Proofs.Text.Suffix
import PropContract.Proofs.Text.Front
import PropContract.Proofs.Text.Numeral
import PropContract.Proofs.Token.Ends
import PropContract.Proofs.Token.Fits
import PropContract.Proofs.Token.Numeral
import PropContract.Proofs.Token.Suffix
import PropContract.Proofs.Token.Checked
import PropContract.Proofs.Token.Front
import PropContract.Proofs.Token.Line
import PropContract.Proofs.Tree.Forest
import PropContract.Proofs.Tree.Lawful
import PropContract.Proofs.Tree.Spans
import PropContract.Proofs.Tree.Links
import PropContract.Proofs.Tree.Renumber
import PropContract.Proofs.Parse.Step
import PropContract.Proofs.Parse.Yields
import PropContract.Proofs.Parse.Displacement
import PropContract.Proofs.Parse.Runs
import PropContract.Proofs.Parse.Runs.Expression
import PropContract.Proofs.Parse.Runs.Statement
import PropContract.Proofs.Parse.File
import PropContract.Proofs.Parse.Tree
import PropContract.Proofs.Parse.Complete
import PropContract.Proofs.Parse.Cursor
import PropContract.Proofs.Scope.Declares
import PropContract.Proofs.Scope.Order
import PropContract.Proofs.Scope.Reads
import PropContract.Proofs.Contract.OverrideMeaning
import PropContract.Proofs.Contract.OverrideTypes
import PropContract.Proofs.File.Tree
import PropContract.Proofs.Command.Run
import PropContract.Proofs.Parse.Safety
import PropContract.Proofs.Parse.Heedless
import PropContract.Proofs.Parse.Stray
import PropContract.Proofs.Parse.Skipped
import PropContract.Proofs.Token.WellFormed
import PropContract.Proofs.Token.Gap
import PropContract.Proofs.Token.Tiling
import PropContract.Proofs.Contract.Renumber.Classify
import PropContract.Proofs.Scope.Renumber
import PropContract.Proofs.Contract.Renumber.Check
import PropContract.Proofs.Contract.Wrappers
import PropContract.Proofs.Contract.EnumValues
import PropContract.Proofs.Contract.Keys
import PropContract.Proofs.Contract.FieldForms
import PropContract.Proofs.Contract.Limits
import PropContract.Proofs.Contract.Siblings
import PropContract.Proofs.Token.Row
import PropContract.Proofs.Parse.BinaryTree
import PropContract.Proofs.Parse.Binary
import PropContract.Proofs.Contract.Places
import PropContract.Proofs.Tree.Nesting
import PropContract.Proofs.Parse.Nesting
import PropContract.Proofs.Parse.Nesting.Expression
import PropContract.Proofs.Parse.Nesting.Statement
import PropContract.Proofs.Parse.Nesting.Module
import PropContract.Proofs.Text.Spelling
import PropContract.Proofs.Text.Agree
import PropContract.Proofs.Token.Contents
import PropContract.Proofs.Token.Ahead
import PropContract.Proofs.Token.Literal
import PropContract.Proofs.Token.Agree
import PropContract.Proofs.Token.Cut
import PropContract.Proofs.Token.Surroundings
import PropContract.Proofs.Text.LineMap
import PropContract.Proofs.Report.Snippet
import PropContract.Proofs.Diagnostic.Message
import PropContract.Proofs.Token.Respaced
