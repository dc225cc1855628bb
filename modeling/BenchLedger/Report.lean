import BenchLedger.Decimal.Fixed
import BenchLedger.Summary

/-!
# Console report

The summary of a capture as it is shown at the end of a run: a title between two rules, the status,
the throughput and the profiler figures. A section without figures shrinks to a hint.
-/

namespace BenchLedger.Report

open Decimal

def rule : List Char := List.replicate 60 '='

def throughputLines : Option ThroughputFigures → List (List Char)
  | none => ["No MIPS data captured (emulator may not have started)".toList]
  | some t =>
    ["MIPS Performance (".toList ++ digits t.count ++ " samples):".toList,
     "  Average: ".toList ++ fixedPlaces 2 t.mean ++ " MIPS".toList,
     "  Range:   ".toList ++ fixedPlaces 2 t.min ++ " - ".toList ++ fixedPlaces 2 t.max ++
       " MIPS".toList] ++
    (t.stdev.map fun d => "  StdDev:  ".toList ++ fixedPlaces 2 d).toList

def profilerLines : Option ProfilerFigures → List (List Char)
  | none => ["No profiler data captured (profiler may be disabled)".toList]
  | some p =>
    ["Profiler Data (".toList ++ digits p.count ++ " samples):".toList] ++
    (p.cycles.map fun x => "  Avg cycles/instr: ".toList ++ fixedPlaces 0 x).toList ++
    (p.execPercent.map fun x => "  Avg exec %:       ".toList ++ fixedPlaces 0 x ++ ['%']).toList ++
    (p.bandwidth.map fun x =>
      "  Avg PSRAM BW:     ".toList ++ fixedPlaces 0 x ++ " KB/s".toList).toList ++
    ["  Bottleneck:       ".toList ++ p.bottleneck.label.toList]

def lines (s : Summary) : List (List Char) :=
  [[], rule, "PERFORMANCE CAPTURE SUMMARY".toList, rule, [],
   "Status: ".toList ++ s.status.label.toList, []] ++
    throughputLines s.throughput ++ [[]] ++ profilerLines s.profiler ++ [[], rule]

/-- The report, without a line feed at its end. -/
def text (s : Summary) : String := String.ofList (['\n'].intercalate (lines s))

end BenchLedger.Report
