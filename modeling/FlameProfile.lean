import FlameProfile.Arithmetic
import FlameProfile.Arithmetic.Floating
import FlameProfile.Arithmetic.Rational
import FlameProfile.Call.ParentStrategy
import FlameProfile.Call.Reconstruction
import FlameProfile.Call.Record
import FlameProfile.CommandLine.Invocation
import FlameProfile.CommandLine.Parameter
import FlameProfile.CommandLine.Program
import FlameProfile.Comparison
import FlameProfile.Decimal.Binary
import FlameProfile.Decimal.Fixed
import FlameProfile.Decimal.Format
import FlameProfile.Decimal.Numeral
import FlameProfile.Decimal.Reader
import FlameProfile.Decimal.Shortest
import FlameProfile.Distribution
import FlameProfile.Drawing.Colour
import FlameProfile.Drawing.Configuration
import FlameProfile.Drawing.Label
import FlameProfile.Drawing.Layout
import FlameProfile.Drawing.Markup
import FlameProfile.Drawing.Options
import FlameProfile.Drawing.Picture
import FlameProfile.Event.Key
import FlameProfile.Event.Kind
import FlameProfile.Event.Line
import FlameProfile.Event.Log
import FlameProfile.FirstSeen
import FlameProfile.HotPath
import FlameProfile.Json.Decoder
import FlameProfile.Json.Reader
import FlameProfile.Json.Scanner
import FlameProfile.Json.Value
import FlameProfile.Json.Writer
import FlameProfile.Location
import FlameProfile.Main
import FlameProfile.Moment
import FlameProfile.NumberText
import FlameProfile.Profile
import FlameProfile.Profile.Document
import FlameProfile.Proofs.Arithmetic.Comparison
import FlameProfile.Proofs.Arithmetic.Ordered
import FlameProfile.Proofs.Arithmetic.Overflow
import FlameProfile.Proofs.Call.Accounting
import FlameProfile.Proofs.Call.Balance
import FlameProfile.Proofs.Call.Bracket
import FlameProfile.Proofs.Call.Effect
import FlameProfile.Proofs.Call.Enclosure
import FlameProfile.Proofs.Call.Grounding
import FlameProfile.Proofs.Call.Interleaving
import FlameProfile.Proofs.Call.Isolation
import FlameProfile.Proofs.Call.Ledger
import FlameProfile.Proofs.Call.Matching
import FlameProfile.Proofs.Call.Measures
import FlameProfile.Proofs.Call.Mirror
import FlameProfile.Proofs.Call.Nesting
import FlameProfile.Proofs.Call.Ownership
import FlameProfile.Proofs.Call.Parents
import FlameProfile.Proofs.Call.Settled
import FlameProfile.Proofs.Call.Tracking
import FlameProfile.Proofs.Drawing.Faults
import FlameProfile.Proofs.Drawing.Layout
import FlameProfile.Proofs.Drawing.Rows
import FlameProfile.Proofs.Drawing.Units
import FlameProfile.Proofs.Decimal.Numeral
import FlameProfile.Proofs.Event.Key
import FlameProfile.Proofs.Event.Line
import FlameProfile.Proofs.FirstSeen
import FlameProfile.Proofs.Json.Number
import FlameProfile.Proofs.Json.RoundTrip
import FlameProfile.Proofs.Json.Scanner
import FlameProfile.Proofs.Path.Order
import FlameProfile.Proofs.Profile.Document
import FlameProfile.Proofs.Ranking
import FlameProfile.Proofs.Report.Difference
import FlameProfile.Proofs.Session.Redrawing
import FlameProfile.Proofs.Session.Storage
import FlameProfile.Proofs.Session.Task
import FlameProfile.Proofs.Sorting
import FlameProfile.Proofs.Stack.Coalescing
import FlameProfile.Proofs.Stack.Weight
import FlameProfile.Proofs.Text.Fields
import FlameProfile.Proofs.Text.Symbols
import FlameProfile.Proofs.Tree.Arena
import FlameProfile.Proofs.Tree.Block
import FlameProfile.Proofs.Tree.Change
import FlameProfile.Proofs.Tree.Closing
import FlameProfile.Proofs.Tree.Depth
import FlameProfile.Proofs.Tree.Extent
import FlameProfile.Proofs.Tree.Failure
import FlameProfile.Proofs.Tree.Gathering
import FlameProfile.Proofs.Tree.Merging
import FlameProfile.Proofs.Tree.Nesting
import FlameProfile.Proofs.Tree.PrefixTree
import FlameProfile.Proofs.Tree.Rejection
import FlameProfile.Proofs.Tree.Reordering
import FlameProfile.Proofs.Tree.Visibility
import FlameProfile.Proofs.Workspace
import FlameProfile.Report.Difference
import FlameProfile.Report.HotPathTable
import FlameProfile.Report.Overview
import FlameProfile.Report.Reference
import FlameProfile.Report.Summary
import FlameProfile.Resource
import FlameProfile.Session
import FlameProfile.Session.Analysis
import FlameProfile.Session.Contrast
import FlameProfile.Session.Fault
import FlameProfile.Session.Inspection
import FlameProfile.Session.Rendering
import FlameProfile.Session.Storage
import FlameProfile.Sorting
import FlameProfile.Stack
import FlameProfile.Text.Blank
import FlameProfile.Text.Column
import FlameProfile.Text.Fields
import FlameProfile.Text.Ink
import FlameProfile.Text.Printable
import FlameProfile.Text.Quoted
import FlameProfile.Text.Symbols
import FlameProfile.TextMap
import FlameProfile.Toml.Document
import FlameProfile.Toml.Reader
import FlameProfile.Toml.Scalar
import FlameProfile.Toml.Text
import FlameProfile.Toml.Value
import FlameProfile.Tree.Difference
import FlameProfile.Tree.Merge
import FlameProfile.Tree.Node
import FlameProfile.Workspace
import FlameProfile.Proofs.Drawing.Markup
import FlameProfile.Proofs.Drawing.Verbatim
import FlameProfile.Proofs.Drawing.Tags
import FlameProfile.Proofs.Stack.Naming
import FlameProfile.Proofs.Drawing.Legality
import FlameProfile.Proofs.Event.Log
import FlameProfile.Proofs.Event.RoundTrip
import FlameProfile.Proofs.Stack.Grouping
import FlameProfile.Proofs.Tree.Comparison
import FlameProfile.Proofs.HotPath
import FlameProfile.Proofs.Path.Runs
import FlameProfile.Proofs.Distribution
import FlameProfile.Proofs.Drawing.Orientation
import FlameProfile.Proofs.Slots
import FlameProfile.Proofs.Call.Frames
import FlameProfile.Proofs.Call.Slots
import FlameProfile.Proofs.Tree.Offsets
import FlameProfile.Proofs.Tree.Slots
import FlameProfile.Proofs.Drawing.Colour
