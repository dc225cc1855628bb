import BenchLedger.Profiler.Block
import BenchLedger.Status
import BenchLedger.Throughput

/-!
# Metrics of a capture

One pass over the captured lines collects the throughput samples of all lines and the profiler
blocks between their sentinels; the markers are searched on all lines again. A block that is not
closed counts for nothing, and a start sentinel inside a block opens it anew.
-/

namespace BenchLedger

open Text Profiler

/-- Whether a profiler block starts after the line. -/
def opensBlock (line : String) : Bool :=
  occursIn "========== CPU PROFILER ==========".toList line.toList

/-- Whether a profiler block that is open ends before the line. -/
def closesBlock (line : String) : Bool :=
  occursIn "==================================".toList line.toList

/-- What a pass over the lines has found so far. -/
structure Scan where
  /-- The samples so far, the last one first. -/
  samples : List Float := []
  blocks : List Block := []
  /-- The lines of the block, the last one first. They are kept after it is closed. -/
  body : List String := []
  isOpen : Bool := false

namespace Scan

def feedBlock (s : Scan) (line : String) : Scan :=
  if opensBlock line then { s with isOpen := true, body := [] }
  else if s.isOpen && closesBlock line then
    { s with isOpen := false, blocks := (Block.ofLines? s.body.reverse).toList ++ s.blocks }
  else if s.isOpen then { s with body := line :: s.body }
  else s

def feed (s : Scan) (line : String) : Scan :=
  feedBlock { s with samples := (Throughput.sample? line).toList ++ s.samples } line

def ofLines (lines : List String) : Scan := lines.foldl feed {}

end Scan

/-- Everything measured in one capture. -/
structure Metrics where
  samples : List Float
  /-- The profiler blocks that supply some figure, in the order of their ends. -/
  blocks : List Block
  markers : Markers

def Metrics.ofLines (lines : List String) : Metrics :=
  let s := Scan.ofLines lines
  { samples := s.samples.reverse
    blocks := s.blocks.reverse
    markers := Markers.ofLines lines }

end BenchLedger
