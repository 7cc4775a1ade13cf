import TreeIndent.Text.Basic
import TreeIndent.Text.Space
import TreeIndent.Text.Indentation
import TreeIndent.Text.Point
import TreeIndent.Text.Lined
import TreeIndent.Numeral
import TreeIndent.Table
import TreeIndent.Path
import TreeIndent.Files
import TreeIndent.Error
import TreeIndent.Document
import TreeIndent.Document.Read
import TreeIndent.Tree.Node
import TreeIndent.Tree.Place
import TreeIndent.Marking.Role
import TreeIndent.Marking.Attributes
import TreeIndent.Marking.Basic
import TreeIndent.Marking.Query
import TreeIndent.Indent
import TreeIndent.Walk.Lookup
import TreeIndent.Walk.Pattern
import TreeIndent.Walk.Delimiter
import TreeIndent.Walk.Basic
import TreeIndent.Registry
import TreeIndent.Forest.Basic
import TreeIndent.Forest.Selection
import TreeIndent.Forest.Facts
import TreeIndent.Cache
import TreeIndent.Json.Literal
import TreeIndent.Json.Token
import TreeIndent.Json.Basic
import TreeIndent.Json.Record
import TreeIndent.Config.Basic
import TreeIndent.Config.Load
import TreeIndent.Indenter
import TreeIndent.Session
import TreeIndent.Hooks
import TreeIndent.CommandLine.Arguments
import TreeIndent.CommandLine.Run
import TreeIndent.Main
import TreeIndent.Proofs.Cache.Entries
import TreeIndent.Proofs.Cache.Recency
import TreeIndent.Proofs.Forest.Growth
import TreeIndent.Proofs.Indenter.Caching
import TreeIndent.Proofs.Session.Change
import TreeIndent.Proofs.Session.Transparency
import TreeIndent.Proofs.Walk.Rules
import TreeIndent.Proofs.Walk.Sum
import TreeIndent.Proofs.Walk.Agreement
import TreeIndent.Proofs.Walk.Locality
import TreeIndent.Proofs.Walk.Terminal
import TreeIndent.Proofs.Text.Reindented
import TreeIndent.Proofs.Tree.Twins
import TreeIndent.Proofs.Tree.Places
import TreeIndent.Proofs.Walk.Twins
import TreeIndent.Proofs.Walk.Reindented
import TreeIndent.Proofs.Session.Forests
import TreeIndent.Proofs.Forest.Selection
import TreeIndent.Proofs.Session.Injection
import TreeIndent.Proofs.Indenter.SwitchedOff
import TreeIndent.Proofs.Config.Search
import TreeIndent.Proofs.Walk.Nesting
import TreeIndent.Proofs.Document.Pieces
import TreeIndent.Proofs.Document.Lines
import TreeIndent.Proofs.Hooks.History
import TreeIndent.Proofs.Registry.History
import TreeIndent.Proofs.CommandLine.LineByLine
import TreeIndent.Proofs.Json.Literals
import TreeIndent.Proofs.Json.Reading
import TreeIndent.Proofs.Json.Records
import TreeIndent.Proofs.Config.Written
import TreeIndent.Proofs.Walk.BlankLines
import TreeIndent.Proofs.Walk.Once
import TreeIndent.Proofs.Marking.LastWriter
import TreeIndent.Proofs.Walk.Closing
import TreeIndent.Proofs.Walk.Lowered
import TreeIndent.Proofs.Document.OneLine
import TreeIndent.Proofs.Document.Points
import TreeIndent.Proofs.Text.Columns
import TreeIndent.Proofs.Walk.TrailingComments
import TreeIndent.Proofs.Text.Blankness
import TreeIndent.Proofs.Text.Widths
import TreeIndent.Proofs.Walk.Delimiters
import TreeIndent.Proofs.Text.Numerals
import TreeIndent.Proofs.Marking.Assignments
