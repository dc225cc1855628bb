import BenchLedger.Metrics
import BenchLedger.Statistics

/-!
# Summary of a capture

The statistics of one capture. What was not observed is absent, never zero: there is no throughput
without a sample, no deviation below two samples, and no average over blocks of which one lacks the
figure.
-/

namespace BenchLedger

open Profiler

/-- Statistics of the throughput samples, in millions of instructions per second. -/
structure ThroughputFigures where
  count : Nat
  mean : Float
  min : Float
  max : Float
  stdev : Option Float

structure ProfilerFigures where
  count : Nat
  cycles : Option Float
  execPercent : Option Float
  /-- Mean of all memory traffic in kilobytes per second. -/
  bandwidth : Option Float
  bottleneck : Bottleneck

/-- What one capture amounts to. -/
structure Summary where
  status : Status
  throughput : Option ThroughputFigures
  profiler : Option ProfilerFigures

/-- The statistics of samples, if there are any. -/
def ThroughputFigures.ofSamples? (samples : List Float) : Option ThroughputFigures := do
  let mean ← Statistics.mean? samples
  let min ← Statistics.least? samples
  let max ← Statistics.greatest? samples
  return ⟨samples.length, mean, min, max, Statistics.deviation? samples⟩

/-- The mean of a figure over all blocks, absent if one of them lacks it. -/
def meanOfAll? (figure : Block → Option UInt64) (blocks : List Block) : Option Float := do
  let values ← blocks.mapM figure
  Statistics.mean? (values.map UInt64.toFloat)

/-- The statistics of blocks, if there are any. A block that names no bottleneck votes for
`Unknown`. -/
def ProfilerFigures.ofBlocks? (blocks : List Block) : Option ProfilerFigures := do
  let bottleneck ← Statistics.mostFrequent? (blocks.map fun b => b.bottleneck.getD .unknown)
  return { count := blocks.length
           cycles := meanOfAll? Block.cyclesTotal blocks
           execPercent := meanOfAll? Block.execPercent blocks
           bandwidth := meanOfAll? Block.bandwidthTotal blocks
           bottleneck }

def Summary.ofMetrics (m : Metrics) : Summary :=
  { status := Status.ofMarkers m.markers
    throughput := ThroughputFigures.ofSamples? m.samples
    profiler := ProfilerFigures.ofBlocks? m.blocks }

end BenchLedger
