import ScimQuery.Command.Arguments
import ScimQuery.Command.Run
import ScimQuery.Command.Style
import ScimQuery.Document
import ScimQuery.Error
import ScimQuery.Filter.Basic
import ScimQuery.Filter.Canonical
import ScimQuery.Filter.Equality
import ScimQuery.Filter.Hash
import ScimQuery.Filter.Level
import ScimQuery.Filter.Nodes
import ScimQuery.Filter.Operator
import ScimQuery.Filter.Phrase
import ScimQuery.Filter.Reader
import ScimQuery.Filter.Token
import ScimQuery.Json.Basic
import ScimQuery.Json.Fault
import ScimQuery.Json.Numeral
import ScimQuery.Json.Quoted
import ScimQuery.Json.Reader
import ScimQuery.Json.Skip
import ScimQuery.Literal
import ScimQuery.Main
import ScimQuery.Number.Basic
import ScimQuery.Number.Decimal
import ScimQuery.Number.Double
import ScimQuery.Number.Text
import ScimQuery.Parse
import ScimQuery.Path.Piece
import ScimQuery.Path.Reader
import ScimQuery.Settings
import ScimQuery.Text.Classes
import ScimQuery.Text.Compare
import ScimQuery.Text.Cursor
import ScimQuery.Text.Shown
import ScimQuery.Toml.Basic
import ScimQuery.Toml.Quoted
import ScimQuery.Toml.Reader
import ScimQuery.Toml.Scalar
import ScimQuery.Value
import ScimQuery.View.Caret
import ScimQuery.View.Tree
import ScimQuery.Proofs.Filter.Tokens
import ScimQuery.Proofs.Filter.Phrases
import ScimQuery.Proofs.Path.Schema
import ScimQuery.Proofs.Path.WellFormed
import ScimQuery.Proofs.Path.Words
import ScimQuery.Proofs.Path.Readable
import ScimQuery.Proofs.Filter.Folds
import ScimQuery.Proofs.Filter.WellFormed
import ScimQuery.Proofs.Filter.Descent
import ScimQuery.Proofs.Filter.Precedence
import ScimQuery.Proofs.Json.Spelling
import ScimQuery.Proofs.Json.Quoted
import ScimQuery.Proofs.Json.Whole
import ScimQuery.Proofs.Literal
import ScimQuery.Proofs.Filter.ReadBack
import ScimQuery.Proofs.Filter.RoundTrip
import ScimQuery.Proofs.Path.RoundTrip
import ScimQuery.Proofs.Filter.Within
import ScimQuery.Proofs.Filter.Composition
import ScimQuery.Proofs.Filter.Equality
import ScimQuery.Proofs.Filter.Meaning
import ScimQuery.Proofs.Filter.Hash
import ScimQuery.Proofs.Text.Places
import ScimQuery.Proofs.Error.Places
import ScimQuery.Proofs.Path.Places
import ScimQuery.Proofs.Filter.Places
import ScimQuery.Proofs.Number.Text
import ScimQuery.Proofs.Filter.Depth
import ScimQuery.Proofs.Filter.Reparse
import ScimQuery.Proofs.Text.Delimiters
import ScimQuery.Proofs.Filter.Delimiters
import ScimQuery.Proofs.Filter.Nesting
import ScimQuery.Proofs.Error.Shift
import ScimQuery.Proofs.Filter.Shift
import ScimQuery.Proofs.Json.Local
import ScimQuery.Proofs.Text.Local
import ScimQuery.Proofs.Filter.Local
import ScimQuery.Proofs.Filter.Balance
import ScimQuery.Proofs.Filter.Completion
import ScimQuery.Proofs.Filter.Stuck
import ScimQuery.Proofs.Filter.Prefix
import ScimQuery.Proofs.Path.Qualified
import ScimQuery.Proofs.Path.Dotted
import ScimQuery.Proofs.Literal.Spelling
import ScimQuery.Proofs.Json.Integer
import ScimQuery.Proofs.Literal.Local
import ScimQuery.Proofs.Filter.Refusal
import ScimQuery.Proofs.View.Caret
import ScimQuery.Proofs.Filter.Faults
import ScimQuery.Proofs.Text.Atoms
import ScimQuery.Proofs.Filter.Atoms
import ScimQuery.Proofs.Filter.Derivation
import ScimQuery.Proofs.Filter.Items
import ScimQuery.Proofs.Filter.Brackets
import ScimQuery.Proofs.Filter.Layout
import ScimQuery.Proofs.Text.EditDistance
import ScimQuery.Proofs.Text.Progress
import ScimQuery.Proofs.Parse.Stations
import ScimQuery.Proofs.Parse.Progress
import ScimQuery.Proofs.Filter.Discipline
import ScimQuery.Proofs.View.Colours
import ScimQuery.Proofs.View.Tree
