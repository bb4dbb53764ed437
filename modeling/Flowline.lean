import Flowline.Catalog.Basic
import Flowline.Catalog.Builtin
import Flowline.Catalog.Contract
import Flowline.Catalog.Custom
import Flowline.Catalog.Rule
import Flowline.Catalog.Shape
import Flowline.Command.Line
import Flowline.Command.Perform
import Flowline.Config
import Flowline.Data.Record
import Flowline.Data.Value
import Flowline.Decimal.Notation
import Flowline.Decimal.Reader
import Flowline.Decimal.Shortest
import Flowline.Diagnostic.Basic
import Flowline.Diagnostic.Finding
import Flowline.Digest.SipHash
import Flowline.Document.Basic
import Flowline.Document.Reader
import Flowline.Engine.Run
import Flowline.Engine.State
import Flowline.Error
import Flowline.Files.Dataset
import Flowline.Files.Tree
import Flowline.Frame.Basic
import Flowline.Graph.Basic
import Flowline.Graph.Order
import Flowline.Graph.Search
import Flowline.Guard.Basic
import Flowline.Guard.Comments
import Flowline.Guard.Dynamic
import Flowline.Guard.Modules
import Flowline.Json.Printer
import Flowline.Json.Reader
import Flowline.Main
import Flowline.Market.Account
import Flowline.Market.Arithmetic
import Flowline.Market.Backtest
import Flowline.Market.Clock
import Flowline.Market.Coerce
import Flowline.Market.Column
import Flowline.Market.Fault
import Flowline.Market.Feature
import Flowline.Market.Indicator
import Flowline.Market.Label
import Flowline.Market.Loader
import Flowline.Market.Program
import Flowline.Market.Table
import Flowline.Node.Aggregate
import Flowline.Node.Basic
import Flowline.Node.Builtin
import Flowline.Node.Crossover
import Flowline.Node.Error
import Flowline.Node.Indicator
import Flowline.Node.Sandboxed
import Flowline.Plan.Basic
import Flowline.Plan.Compile
import Flowline.Proofs.Catalog.Answers
import Flowline.Proofs.Catalog.Derived
import Flowline.Proofs.Catalog.Resolve
import Flowline.Proofs.Data.Record
import Flowline.Proofs.Data.Same
import Flowline.Proofs.Data.Sorted
import Flowline.Proofs.Data.Value
import Flowline.Proofs.Decimal.Digits
import Flowline.Proofs.Document.Distinct
import Flowline.Proofs.Document.Grammar
import Flowline.Proofs.Document.Reader
import Flowline.Proofs.Document.RoundTrip
import Flowline.Proofs.Document.Sound
import Flowline.Proofs.Engine.Concurrency
import Flowline.Proofs.Engine.Invariant
import Flowline.Proofs.Engine.Loop
import Flowline.Proofs.Engine.Outcome
import Flowline.Proofs.Engine.Progress
import Flowline.Proofs.Engine.Records
import Flowline.Proofs.Engine.Reference
import Flowline.Proofs.Engine.Start
import Flowline.Proofs.Engine.State
import Flowline.Proofs.Files.Change
import Flowline.Proofs.Files.Dataset
import Flowline.Proofs.Files.Leads
import Flowline.Proofs.Files.Tree
import Flowline.Proofs.Frame.Columns
import Flowline.Proofs.Frame.Join
import Flowline.Proofs.Graph.Adjacency
import Flowline.Proofs.Graph.Basic
import Flowline.Proofs.Graph.Canonical
import Flowline.Proofs.Graph.Order
import Flowline.Proofs.Graph.Search
import Flowline.Proofs.Graph.Taking
import Flowline.Proofs.Guard.Policy
import Flowline.Proofs.Guard.PythonImports
import Flowline.Proofs.Guard.PythonStatements
import Flowline.Proofs.Guard.PythonStripping
import Flowline.Proofs.Guard.PythonText
import Flowline.Proofs.Guard.Reading
import Flowline.Proofs.Guard.ScriptLines
import Flowline.Proofs.Guard.ScriptLoads
import Flowline.Proofs.Guard.ScriptStripping
import Flowline.Proofs.Guard.ScriptText
import Flowline.Proofs.Guard.Stripping
import Flowline.Proofs.Json.Layout
import Flowline.Proofs.Json.Reading
import Flowline.Proofs.Json.Sound
import Flowline.Proofs.Json.Token
import Flowline.Proofs.Market.Account
import Flowline.Proofs.Market.Classes
import Flowline.Proofs.Market.Column
import Flowline.Proofs.Market.Feature
import Flowline.Proofs.Market.Fill
import Flowline.Proofs.Market.Foresight
import Flowline.Proofs.Market.Hollow
import Flowline.Proofs.Market.Indicator
import Flowline.Proofs.Market.Integer
import Flowline.Proofs.Market.Loader
import Flowline.Proofs.Market.Loading
import Flowline.Proofs.Market.Merging
import Flowline.Proofs.Market.Outcome
import Flowline.Proofs.Market.Prefix
import Flowline.Proofs.Market.Rounding
import Flowline.Proofs.Market.Shape
import Flowline.Proofs.Market.Sign
import Flowline.Proofs.Market.Table
import Flowline.Proofs.Market.Wish
import Flowline.Proofs.Node.Aggregate
import Flowline.Proofs.Node.Crossover
import Flowline.Proofs.Node.Groups
import Flowline.Proofs.Node.Indicator
import Flowline.Proofs.Node.Inline
import Flowline.Proofs.Plan.Build
import Flowline.Proofs.Plan.Compile
import Flowline.Proofs.Plan.Diagnose
import Flowline.Proofs.Plan.Frames
import Flowline.Proofs.Plan.Order
import Flowline.Proofs.Plan.RoundTrip
import Flowline.Proofs.Plan.Text
import Flowline.Proofs.Run.Binding
import Flowline.Proofs.Run.Confinement
import Flowline.Proofs.Run.FileStore
import Flowline.Proofs.Run.Result
import Flowline.Proofs.Sandbox.Calls
import Flowline.Proofs.Sandbox.Ending
import Flowline.Proofs.Sandbox.Exact
import Flowline.Proofs.Sandbox.Inline
import Flowline.Proofs.Sandbox.Output
import Flowline.Proofs.Sandbox.Tracking
import Flowline.Proofs.Series.Causal
import Flowline.Proofs.Series.Crossover
import Flowline.Proofs.Series.Rolling
import Flowline.Proofs.Setup.Dispatch
import Flowline.Proofs.Text.Lines
import Flowline.Proofs.Text.Scan
import Flowline.Proofs.Time.Moment
import Flowline.Proofs.Toml.Sound
import Flowline.Proofs.Validation.Bounds
import Flowline.Proofs.Validation.Defects
import Flowline.Proofs.Validation.Entries
import Flowline.Proofs.Validation.Loops
import Flowline.Proofs.Validation.Parameters
import Flowline.Proofs.Validation.Structure
import Flowline.Run.Context
import Flowline.Run.FileStore
import Flowline.Run.Result
import Flowline.Run.Store
import Flowline.Sandbox.Calls
import Flowline.Sandbox.Guest
import Flowline.Sandbox.Harness
import Flowline.Sandbox.Inline
import Flowline.Sandbox.Input
import Flowline.Sandbox.Language
import Flowline.Sandbox.Launch
import Flowline.Sandbox.Monitor
import Flowline.Sandbox.Output
import Flowline.Sandbox.Policy
import Flowline.Sandbox.Program
import Flowline.Sandbox.Settings
import Flowline.Sandbox.Tracking
import Flowline.Sandbox.Unit
import Flowline.Sandbox.Violation
import Flowline.Series.Crossover
import Flowline.Series.Indicator
import Flowline.Setup
import Flowline.Text.Blank
import Flowline.Text.Csv
import Flowline.Text.Literal
import Flowline.Text.Scan
import Flowline.Text.Word
import Flowline.Time.Calendar
import Flowline.Time.Iso
import Flowline.Time.Moment
import Flowline.Time.Stamp
import Flowline.Toml.Reader
import Flowline.Toml.Scalar
import Flowline.Toml.Table
import Flowline.Validation.Basic
import Flowline.Yaml.Node
import Flowline.Yaml.Reader
import Flowline.Yaml.Text
