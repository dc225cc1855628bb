import BenchLedger.Calendar
import BenchLedger.Decimal.Fixed
import BenchLedger.Summary

/-!
# Ledger rows

The ledger is a table with one row for each capture. A row has nine cells: when, under which label,
the figures of the summary, and the status. A figure that was not observed is `N/A`, and a bar in a
label is written behind a backslash.
-/

namespace BenchLedger.Ledger

open Decimal

/-- What a new ledger starts with: a title and the head of the table. -/
def header : String :=
  "# Performance Tracking\n\n" ++
  "This document tracks performance measurements over time.\n\n" ++
  "## Measurements\n\n" ++
  "| Date | Label | MIPS (avg) | MIPS (range) | Cycles/instr | Exec % | PSRAM BW | Bottleneck " ++
  "| Status |\n" ++
  "|------|-------|------------|--------------|--------------|--------|----------|------------" ++
  "|--------|\n"

def orAbsent (cell : Option (List Char)) : List Char := cell.getD "N/A".toList

/-- A text with a backslash before every bar. -/
def escapeBars (cs : List Char) : List Char :=
  cs.flatMap fun c => if c = '|' then ['\\', '|'] else [c]

theorem escapeBars_cons (c : Char) (cs : List Char) :
    escapeBars (c :: cs) = (if c = '|' then ['\\', '|'] else [c]) ++ escapeBars cs := rfl

/-- The six cells of the figures of a summary. -/
def figureCells (s : Summary) : List (List Char) :=
  [orAbsent (s.throughput.map fun t => fixedPlaces 2 t.mean),
   orAbsent (s.throughput.map fun t => fixedPlaces 2 t.min ++ '-' :: fixedPlaces 2 t.max),
   orAbsent ((s.profiler.bind (·.cycles)).map (fixedPlaces 0)),
   orAbsent ((s.profiler.bind (·.execPercent)).map fun x => fixedPlaces 0 x ++ ['%']),
   orAbsent ((s.profiler.bind (·.bandwidth)).map fun x => fixedPlaces 0 x ++ " KB/s".toList),
   orAbsent (s.profiler.map (·.bottleneck.label.toList))]

/-- The nine cells of a row. -/
def cells (s : Summary) (label : String) (time : Moment) : List (List Char) :=
  [time.rowStamp, escapeBars label.toList] ++ figureCells s ++ [s.status.label.toList]

/-- The row of one capture, with the line feed at its end. -/
def row (s : Summary) (label : String) (time : Moment) : List Char :=
  '|' :: (cells s label time).flatMap (fun cell => ' ' :: cell ++ [' ', '|']) ++ ['\n']

end BenchLedger.Ledger
