import BenchLedger.Main
import BenchLedger.Proofs.Metrics.Enclosures
import BenchLedger.Proofs.Profiler.Forms
import BenchLedger.Proofs.Throughput.Samples
import BenchLedger.Proofs.Session.Replay
import BenchLedger.Proofs.Capture.Closing
import BenchLedger.Proofs.Disk.Filed
import BenchLedger.Proofs.Disk.Join
import BenchLedger.Proofs.Session.Outputs
import BenchLedger.Proofs.Session.Failure
import BenchLedger.Proofs.Session.History
import BenchLedger.Proofs.Json.Reader
import BenchLedger.Proofs.Text.Folding
import BenchLedger.Proofs.Json.ReadBack
import BenchLedger.Proofs.Summary.Status
import BenchLedger.Proofs.Session.Agreement
import BenchLedger.Proofs.Capture.Echo
import BenchLedger.Proofs.Session.Console
import BenchLedger.Proofs.Session.NoData
import BenchLedger.Proofs.Disk.Taken
import BenchLedger.Proofs.Ledger.Calls
import BenchLedger.Proofs.CommandLine.ExitStatus
import BenchLedger.Proofs.Ledger.Lines
import BenchLedger.Proofs.Transcript.FirstFree
import BenchLedger.Proofs.Ledger.Cells
import BenchLedger.Proofs.Metrics.Extension
import BenchLedger.Proofs.Metrics.Noise
import BenchLedger.Proofs.Ledger.FileLines
import BenchLedger.Proofs.Summary.Strict
import BenchLedger.Proofs.Summary.Vote
import BenchLedger.Proofs.Profiler.Groups
import BenchLedger.Proofs.Capture.LineBreaks
import BenchLedger.Proofs.Summary.Renderings
import BenchLedger.Proofs.Record.Contents
import BenchLedger.Proofs.Session.Numbers
import BenchLedger.Proofs.Capture.Draining
import BenchLedger.Proofs.Summary.Range
import BenchLedger.Proofs.Transcript.Children
import BenchLedger.Proofs.Session.Ports
