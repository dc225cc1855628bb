import BenchLedger.Json.Printer
import BenchLedger.Summary

/-!
# Capture records

The summary of a capture together with the circumstances of the run, as a document. The field of an
absent figure is left out.
-/

namespace BenchLedger

open Json

/-- A summary and the run that it belongs to. -/
structure Record where
  label : String
  capturedAt : String
  elapsed : Float
  lineCount : Nat
  stopped : Bool
  summary : Summary

/-- A field that is left out if its figure is absent. -/
def optionalField (name : String) (figure : Option Float) : List (String × Value) :=
  (figure.map fun x => (name, Value.real x)).toList

def ThroughputFigures.document (t : ThroughputFigures) : Value :=
  .object <|
    [("count", .natural t.count), ("mean", .real t.mean), ("min", .real t.min),
     ("max", .real t.max)] ++ optionalField "stdev" t.stdev

def ProfilerFigures.document (p : ProfilerFigures) : Value :=
  .object <|
    ("count", .natural p.count) :: optionalField "cycles_avg" p.cycles ++
      optionalField "exec_pct_avg" p.execPercent ++
      optionalField "bandwidth_avg_kbps" p.bandwidth ++ [("bottleneck", .text p.bottleneck.label)]

def Summary.document (s : Summary) : Value :=
  .object <|
    ("status", .text s.status.label) ::
      (s.throughput.map fun t => ("throughput", t.document)).toList ++
      (s.profiler.map fun p => ("profiler", p.document)).toList

def Record.document (r : Record) : Value :=
  .object
    [("label", .text r.label), ("captured_at", .text r.capturedAt),
     ("elapsed_secs", .real r.elapsed), ("line_count", .natural r.lineCount),
     ("interrupted", .boolean r.stopped), ("summary", r.summary.document)]

end BenchLedger
