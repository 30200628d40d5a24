import TitleClasses.Action
import TitleClasses.Assignment.Batch
import TitleClasses.Assignment.Classifier
import TitleClasses.Assignment.Policy
import TitleClasses.Assignment.Step
import TitleClasses.Clock
import TitleClasses.Command.Assign
import TitleClasses.Command.Line
import TitleClasses.Command.Markup
import TitleClasses.Command.Notice
import TitleClasses.Command.Printed
import TitleClasses.Command.Program
import TitleClasses.Command.Request
import TitleClasses.Command.Rules
import TitleClasses.Command.Schedule
import TitleClasses.Command.Session
import TitleClasses.Command.Stats
import TitleClasses.Digest.Fingerprint
import TitleClasses.Digest.Sha256
import TitleClasses.Document.Element
import TitleClasses.Document.Json
import TitleClasses.Document.Storage
import TitleClasses.Fault
import TitleClasses.Files.Path
import TitleClasses.Files.Tree
import TitleClasses.Instant
import TitleClasses.Instant.Reader
import TitleClasses.Json.Keyed
import TitleClasses.Json.Order
import TitleClasses.Json.Printer
import TitleClasses.Json.Reader
import TitleClasses.Json.Shape
import TitleClasses.Json.Value
import TitleClasses.Log
import TitleClasses.Log.Open
import TitleClasses.Log.Routing
import TitleClasses.Main
import TitleClasses.Number.Binary64
import TitleClasses.Number.Extended
import TitleClasses.Number.FifteenDigits
import TitleClasses.Number.Numeral
import TitleClasses.Number.Shortest
import TitleClasses.Processed.Journal
import TitleClasses.Processed.Row
import TitleClasses.Processed.Stored
import TitleClasses.Processed.Table
import TitleClasses.Rule.Engine
import TitleClasses.Rule.Pattern
import TitleClasses.Rule.Predicate
import TitleClasses.Rule.Search
import TitleClasses.Rule.Split
import TitleClasses.Settings.Basic
import TitleClasses.Settings.Environment
import TitleClasses.Settings.Profile
import TitleClasses.Settings.VariableFile
import TitleClasses.Sorting.Leap
import TitleClasses.Sorting.Merge
import TitleClasses.Sorting.Runs
import TitleClasses.Statistics
import TitleClasses.Text.Basic
import TitleClasses.Text.Capital
import TitleClasses.Text.Case
import TitleClasses.Text.Digit
import TitleClasses.Text.Lines
import TitleClasses.Text.Printable
import TitleClasses.Text.Quoted
import TitleClasses.Text.Similar
import TitleClasses.Text.Utf8
import TitleClasses.Text.Word
import TitleClasses.Vocabulary.Catalogue
import TitleClasses.Vocabulary.Record
import TitleClasses.Proofs.Rule.Split
import TitleClasses.Proofs.Action
import TitleClasses.Proofs.Rule.Engine
import TitleClasses.Proofs.Rule.Requests
import TitleClasses.Proofs.Rule.Matching
import TitleClasses.Proofs.Rule.Occurrence
import TitleClasses.Proofs.Json.Scalar
import TitleClasses.Proofs.Text.Utf8
import TitleClasses.Proofs.Document.Kept
import TitleClasses.Proofs.Files.Frame
import TitleClasses.Proofs.Files.Footprint
import TitleClasses.Proofs.Files.Places
import TitleClasses.Proofs.Document.Storage
import TitleClasses.Proofs.Document.Remains
import TitleClasses.Proofs.Fault
import TitleClasses.Proofs.Sorting
import TitleClasses.Proofs.Vocabulary.Loading
import TitleClasses.Proofs.Document.Faults
import TitleClasses.Proofs.Assignment.Chunks
import TitleClasses.Proofs.Assignment.Finding
import TitleClasses.Proofs.Assignment.Workers
import TitleClasses.Proofs.Assignment.Step
import TitleClasses.Proofs.Json.Depth
import TitleClasses.Proofs.Json.Display
import TitleClasses.Proofs.Assignment.Policy
import TitleClasses.Proofs.Vocabulary.Catalogue
import TitleClasses.Proofs.Assignment.Desk
import TitleClasses.Proofs.Json.Keys
import TitleClasses.Proofs.Vocabulary.Content
import TitleClasses.Proofs.Vocabulary.Service
import TitleClasses.Proofs.Assignment.Effect
import TitleClasses.Proofs.Assignment.Contained
import TitleClasses.Proofs.Processed.Table
import TitleClasses.Proofs.Assignment.Repeated
import TitleClasses.Proofs.Assignment.Twice
import TitleClasses.Proofs.Digest.Fingerprint
import TitleClasses.Proofs.Vocabulary.Digest
import TitleClasses.Proofs.Assignment.Batch
import TitleClasses.Proofs.Assignment.Skipping
import TitleClasses.Proofs.Assignment.Unloaded
import TitleClasses.Proofs.Assignment.Aborted
import TitleClasses.Proofs.Command.Schedule
import TitleClasses.Proofs.Document.Reach
import TitleClasses.Proofs.Processed.Entry
import TitleClasses.Proofs.Assignment.Fate
import TitleClasses.Proofs.Assignment.Isolation
import TitleClasses.Proofs.Statistics.Tally
import TitleClasses.Proofs.Statistics.Conserved
import TitleClasses.Proofs.Document.RoundTrip
import TitleClasses.Proofs.Instant
import TitleClasses.Proofs.Processed.Row
import TitleClasses.Proofs.Processed.LastRecord
import TitleClasses.Proofs.Assignment.Agreement
import TitleClasses.Proofs.Assignment.Record
import TitleClasses.Proofs.Assignment.Verdict
import TitleClasses.Proofs.Assignment.Converged
import TitleClasses.Proofs.Assignment.Foretold
import TitleClasses.Proofs.Rule.Composition
import TitleClasses.Proofs.Rule.NormalForm
import TitleClasses.Proofs.Rule.Joined
import TitleClasses.Proofs.Assignment.Warnings
import TitleClasses.Proofs.Rule.Callers
import TitleClasses.Proofs.Text.Case
import TitleClasses.Proofs.Text.Gaps
import TitleClasses.Proofs.Rule.Encoding
import TitleClasses.Proofs.Rule.Satisfiable
import TitleClasses.Proofs.Rule.Glob
import TitleClasses.Proofs.Rule.WhiteSpace
import TitleClasses.Proofs.Rule.CaseBlind
import TitleClasses.Proofs.Assignment.LongerTitle
import TitleClasses.Proofs.Assignment.Classifier
import TitleClasses.Proofs.Document.Replacements
import TitleClasses.Proofs.Document.Grammar
import TitleClasses.Proofs.Statistics.Update
import TitleClasses.Proofs.Processed.Newest
import TitleClasses.Proofs.Command.Output
