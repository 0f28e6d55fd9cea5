import VideoCatalog.Batch
import VideoCatalog.CommandLine
import VideoCatalog.CommandLine.Reader
import VideoCatalog.Config
import VideoCatalog.Config.Environment
import VideoCatalog.Config.Json
import VideoCatalog.Config.Loading
import VideoCatalog.Config.Toml
import VideoCatalog.Discovery
import VideoCatalog.Engine
import VideoCatalog.Engine.Datatype
import VideoCatalog.Engine.Query
import VideoCatalog.Engine.Structural
import VideoCatalog.Failure
import VideoCatalog.Files.Path
import VideoCatalog.Files.Volume
import VideoCatalog.Glob
import VideoCatalog.Grammar.Content
import VideoCatalog.Grammar.Model
import VideoCatalog.Grammar.Pattern
import VideoCatalog.Grammar.Reading
import VideoCatalog.Grammar.Schema
import VideoCatalog.Grammar.Violation
import VideoCatalog.GrammarSet
import VideoCatalog.GrammarSet.Loading
import VideoCatalog.Import
import VideoCatalog.Json.Reader
import VideoCatalog.Json.Value
import VideoCatalog.Main
import VideoCatalog.Number.Decimal
import VideoCatalog.Number.Double
import VideoCatalog.Number.Duration
import VideoCatalog.Output.Format
import VideoCatalog.Output.Report
import VideoCatalog.Program
import VideoCatalog.Proofs.Batch.Report
import VideoCatalog.Proofs.Batch.Schedule
import VideoCatalog.Proofs.Batch.Tasks
import VideoCatalog.Proofs.Grammar.Account
import VideoCatalog.Proofs.Grammar.Alignment
import VideoCatalog.Proofs.Grammar.Assignment
import VideoCatalog.Proofs.Grammar.Explain
import VideoCatalog.Proofs.Grammar.Language
import VideoCatalog.Proofs.Grammar.Listing
import VideoCatalog.Proofs.Grammar.Locality
import VideoCatalog.Proofs.Grammar.Origin
import VideoCatalog.Proofs.Grammar.Placement
import VideoCatalog.Proofs.Grammar.Reached
import VideoCatalog.Proofs.Grammar.Reading
import VideoCatalog.Proofs.Grammar.Standalone
import VideoCatalog.Proofs.Import.Interleaving
import VideoCatalog.Proofs.Import.Order
import VideoCatalog.Proofs.Import.Submission
import VideoCatalog.Proofs.Pattern.Listing
import VideoCatalog.Proofs.Pattern.Matching
import VideoCatalog.Proofs.Pattern.Particles
import VideoCatalog.Proofs.Pattern.Soundness
import VideoCatalog.Proofs.Pattern.Standalone
import VideoCatalog.Proofs.Pattern.Validity
import VideoCatalog.Proofs.Program.ExitCode
import VideoCatalog.Proofs.Record.Fields
import VideoCatalog.Proofs.Record.RoundTrip
import VideoCatalog.Proofs.Record.Slots
import VideoCatalog.Proofs.Schema.Allowing
import VideoCatalog.Proofs.Schema.Listing
import VideoCatalog.Proofs.Schema.Particles
import VideoCatalog.Proofs.Schema.Soundness
import VideoCatalog.Proofs.Schema.Standalone
import VideoCatalog.Proofs.Schema.Validity
import VideoCatalog.Proofs.Search.Answer
import VideoCatalog.Proofs.Search.Entries
import VideoCatalog.Proofs.Search.Filter
import VideoCatalog.Proofs.Search.Folding
import VideoCatalog.Proofs.Search.XPath
import VideoCatalog.Proofs.Shipped.Pattern
import VideoCatalog.Proofs.Shipped.Records
import VideoCatalog.Proofs.Shipped.Schema
import VideoCatalog.Proofs.Shipped.Text
import VideoCatalog.Proofs.Store.Dictionary
import VideoCatalog.Proofs.Text.Integer
import VideoCatalog.Proofs.Text.Lexical
import VideoCatalog.Proofs.Validator.Check
import VideoCatalog.Proofs.Validator.Completeness
import VideoCatalog.Proofs.Validator.Replacement
import VideoCatalog.Proofs.Validator.Verdict
import VideoCatalog.Proofs.Xml.Escaping
import VideoCatalog.Proofs.Xml.Fragment
import VideoCatalog.Proofs.Xml.Layout
import VideoCatalog.Proofs.Xml.Legible
import VideoCatalog.Proofs.Xml.Lexing
import VideoCatalog.Proofs.Xml.Parsing
import VideoCatalog.Proofs.Xml.Tree
import VideoCatalog.Record
import VideoCatalog.Record.Json
import VideoCatalog.Record.Reading
import VideoCatalog.Record.Xml
import VideoCatalog.Search
import VideoCatalog.Shipped
import VideoCatalog.Store
import VideoCatalog.Text.Blank
import VideoCatalog.Text.CaseFolding
import VideoCatalog.Text.Integer
import VideoCatalog.Text.LowerCase
import VideoCatalog.Text.Printable
import VideoCatalog.Text.Quoted
import VideoCatalog.Text.Ranges
import VideoCatalog.Text.Utf8
import VideoCatalog.Toml.Reader
import VideoCatalog.Toml.Scalar
import VideoCatalog.Toml.Value
import VideoCatalog.Validator
import VideoCatalog.Video
import VideoCatalog.Xml.Element
import VideoCatalog.Xml.Markup
import VideoCatalog.Xml.Reader
import VideoCatalog.Xml.Token
import VideoCatalog.Proofs.Grammar.Ending
import VideoCatalog.Proofs.Schema.Ending
import VideoCatalog.Proofs.Pattern.Ending
import VideoCatalog.Proofs.Search.Table
import VideoCatalog.Proofs.Record.Faults
import VideoCatalog.Proofs.Record.LastOccurrence
import VideoCatalog.Proofs.Record.Strangers
import VideoCatalog.Proofs.Validator.Vocabulary
import VideoCatalog.Proofs.Files.Path
import VideoCatalog.Proofs.Files.Tree
import VideoCatalog.Proofs.Discovery.Reachable
import VideoCatalog.Proofs.Grammar.Values
import VideoCatalog.Proofs.Config.Layers
import VideoCatalog.Proofs.Grammar.FlatTable
import VideoCatalog.Proofs.Grammar.Indexing
import VideoCatalog.Proofs.Grammar.Building
import VideoCatalog.Proofs.Schema.Building
import VideoCatalog.Proofs.Pattern.Building
import VideoCatalog.Proofs.Grammar.WellFormed
import VideoCatalog.Proofs.Outcome
import VideoCatalog.Proofs.Json.Quoting
import VideoCatalog.Proofs.Json.Numerals
import VideoCatalog.Proofs.Json.Compact
import VideoCatalog.Proofs.Json.Extent
import VideoCatalog.Proofs.Json.Spanning
import VideoCatalog.Proofs.Json.Parts
import VideoCatalog.Proofs.Record.Json
