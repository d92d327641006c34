import QuantileMonitor.Decimal.Double
import QuantileMonitor.Decimal.Positional
import QuantileMonitor.Decimal.Read
import QuantileMonitor.Decimal.Scientific
import QuantileMonitor.Decimal.Shortest
import QuantileMonitor.Device.Names
import QuantileMonitor.Device.Selection
import QuantileMonitor.Device.SysTree
import QuantileMonitor.Device.Syscall
import QuantileMonitor.Device.Uevent
import QuantileMonitor.Draws
import QuantileMonitor.Draws.Generator
import QuantileMonitor.Entity
import QuantileMonitor.Files
import QuantileMonitor.Frame.Bar
import QuantileMonitor.Frame.Cell
import QuantileMonitor.Frame.Screen
import QuantileMonitor.Frame.Summary
import QuantileMonitor.Frame.Table
import QuantileMonitor.Gauge
import QuantileMonitor.Ingest.Batch
import QuantileMonitor.Ingest.Correlator
import QuantileMonitor.Ingest.Counters
import QuantileMonitor.Ingest.Filter
import QuantileMonitor.Ingest.Intake
import QuantileMonitor.Ingest.Pipeline
import QuantileMonitor.Ingest.Queue
import QuantileMonitor.Ingest.Record
import QuantileMonitor.Monitor.Basic
import QuantileMonitor.Monitor.Plan
import QuantileMonitor.Monitor.Start
import QuantileMonitor.Monitor.StartError
import QuantileMonitor.Monitor.Targets
import QuantileMonitor.Monitor.Timetable
import QuantileMonitor.Pattern.Bracket
import QuantileMonitor.Pattern.Check
import QuantileMonitor.Pattern.Depth
import QuantileMonitor.Pattern.Escape
import QuantileMonitor.Pattern.Fault
import QuantileMonitor.Pattern.Group
import QuantileMonitor.Pattern.Notice
import QuantileMonitor.Pattern.Place
import QuantileMonitor.Pattern.Read
import QuantileMonitor.Pattern.Tree
import QuantileMonitor.Poll.Depth
import QuantileMonitor.Poll.Poller
import QuantileMonitor.Poll.Run
import QuantileMonitor.Program.Command
import QuantileMonitor.Program.LogFilter
import QuantileMonitor.Program.Report
import QuantileMonitor.Quantile.Bins
import QuantileMonitor.Quantile.Estimator
import QuantileMonitor.Quantile.Histogram
import QuantileMonitor.Quantile.LogSketch
import QuantileMonitor.Quantile.Position
import QuantileMonitor.Quantile.Reservoir
import QuantileMonitor.Quantile.Sketch
import QuantileMonitor.Quantile.Strategy
import QuantileMonitor.Registry
import QuantileMonitor.Scalar
import QuantileMonitor.Settings.Arguments
import QuantileMonitor.Settings.Basic
import QuantileMonitor.Settings.Check
import QuantileMonitor.Settings.File
import QuantileMonitor.Settings.Overrides
import QuantileMonitor.Span
import QuantileMonitor.Text.Alphabetic
import QuantileMonitor.Text.Blank
import QuantileMonitor.Text.Duration
import QuantileMonitor.Text.Numeral
import QuantileMonitor.Text.Numeric
import QuantileMonitor.Window.Basic
import QuantileMonitor.Window.Exact
import QuantileMonitor.Window.Top
import QuantileMonitor.Word
import QuantileMonitor.Yaml.Directive
import QuantileMonitor.Yaml.Node
import QuantileMonitor.Yaml.Scalar
import QuantileMonitor.Yaml.Source
import QuantileMonitor.Yaml.Tag
import QuantileMonitor.Yaml.Token
import QuantileMonitor.Yaml.Value
import QuantileMonitor.Main
import QuantileMonitor.Proofs.Ingest.Batching
import QuantileMonitor.Proofs.Ingest.Conservation
import QuantileMonitor.Proofs.Ingest.Ledger
import QuantileMonitor.Proofs.Ingest.Queue
import QuantileMonitor.Proofs.Quantile.Accuracy
import QuantileMonitor.Proofs.Quantile.Answers
import QuantileMonitor.Proofs.Quantile.Bins
import QuantileMonitor.Proofs.Quantile.Contents
import QuantileMonitor.Proofs.Quantile.Ranked
import QuantileMonitor.Proofs.Registry.Isolation
import QuantileMonitor.Proofs.Registry.Lifetimes
import QuantileMonitor.Proofs.Registry.Slots
import QuantileMonitor.Proofs.Registry.Snapshot
import QuantileMonitor.Proofs.Scalar
import QuantileMonitor.Proofs.Stream
import QuantileMonitor.Proofs.Word
import QuantileMonitor.Proofs.Quantile.Monotone
import QuantileMonitor.Proofs.Quantile.Line
import QuantileMonitor.Proofs.Quantile.Tally
import QuantileMonitor.Proofs.Quantile.Pool
import QuantileMonitor.Proofs.Quantile.Sampling
import QuantileMonitor.Proofs.Quantile.Uniform
import QuantileMonitor.Proofs.Window.Exact
import QuantileMonitor.Proofs.Window.Largest
import QuantileMonitor.Proofs.Quantile.Summary
import QuantileMonitor.Proofs.Window.Replay
import QuantileMonitor.Proofs.Ingest.Correlation
import QuantileMonitor.Proofs.Registry.Counts
import QuantileMonitor.Proofs.Poll.Iteration
import QuantileMonitor.Proofs.Poll.Loops
import QuantileMonitor.Proofs.Quantile.Scales
import QuantileMonitor.Proofs.Quantile.Union
import QuantileMonitor.Proofs.Quantile.Merging
import QuantileMonitor.Proofs.Monitor.Planning
import QuantileMonitor.Proofs.Monitor.Polling
import QuantileMonitor.Proofs.Text.Blank
import QuantileMonitor.Proofs.Ingest.Filtering
import QuantileMonitor.Proofs.Device.SyscallList
import QuantileMonitor.Proofs.Monitor.Targets
import QuantileMonitor.Proofs.Monitor.Stopping
import QuantileMonitor.Proofs.Frame.Drops
import QuantileMonitor.Proofs.Outcome
import QuantileMonitor.Proofs.Device.Numbers
import QuantileMonitor.Proofs.Quantile.Arrivals
import QuantileMonitor.Proofs.Quantile.Agreement
import QuantileMonitor.Proofs.Quantile.Ascent
import QuantileMonitor.Proofs.Window.Companions
import QuantileMonitor.Proofs.Ingest.Staleness
import QuantileMonitor.Proofs.Registry.History
import QuantileMonitor.Proofs.Monitor.Warmup
import QuantileMonitor.Proofs.Ingest.Wire
import QuantileMonitor.Proofs.Text.Fields
import QuantileMonitor.Proofs.Text.Numeral
import QuantileMonitor.Proofs.Poll.Counters
import QuantileMonitor.Proofs.Poll.Front
import QuantileMonitor.Proofs.Device.Display
import QuantileMonitor.Proofs.Text.Lines
import QuantileMonitor.Proofs.Device.SyscallTable
import QuantileMonitor.Proofs.Device.Uevent
import QuantileMonitor.Proofs.Monitor.Spelling
import QuantileMonitor.Proofs.Share
import QuantileMonitor.Proofs.Window.Busy
import QuantileMonitor.Proofs.Ingest.NeverIdle
import QuantileMonitor.Proofs.Poll.GroupSums
import QuantileMonitor.Proofs.Quantile.Room
import QuantileMonitor.Proofs.Rounding
import QuantileMonitor.Proofs.Decimal.Fixed
import QuantileMonitor.Proofs.Decimal.Shortest
import QuantileMonitor.Proofs.Frame.Texts
import QuantileMonitor.Proofs.Frame.Cells
import QuantileMonitor.Proofs.Frame.Bars
import QuantileMonitor.Proofs.Frame.Rows
