import BenchLedger.Proofs.Metrics.Enclosures
import BenchLedger.Proofs.Profiler.Groups
import BenchLedger.Proofs.Summary.Vote
import BenchLedger.Proofs.Throughput.Samples

/-!
# Nothing absent counts

What the summary of a capture shows and what it leaves out, told from the lines alone:
`ofMetrics_strict`. The blocks that count are given by the lines that two sentinels enclose
(`countedBodies`), which leaves out blocks without a figure and those without an end. An average is
there only if every block that counts has the figure, and is then taken over all of them.
-/

namespace BenchLedger

open Profiler Statistics Throughput

/-! ## Averages -/

/-- `x` is the mean of figures: there are some, none of them is absent, and each is taken once. -/
def IsMean (x : Float) (figures : List (Option UInt64)) : Prop :=
  ∃ values, values ≠ [] ∧ figures = values.map some ∧
    x = sum (values.map UInt64.toFloat) / Float.ofNat values.length

section average

variable {figure : Block → Option UInt64} {blocks : List Block}

theorem mapM_eq_some_iff {α β : Type} {f : α → Option β} {xs : List α} {ys : List β} :
    xs.mapM f = some ys ↔ xs.map f = ys.map some := by
  induction xs generalizing ys with
  | nil => cases ys <;> simp
  | cons x xs ih =>
    cases ys with
    | nil => simp [Option.bind_eq_some_iff]
    | cons y ys => simp [Option.bind_eq_some_iff, ← ih]

theorem meanOfAll?_eq_some_iff {x : Float} :
    meanOfAll? figure blocks = some x ↔ IsMean x (blocks.map figure) := by
  simp only [meanOfAll?, Option.bind_eq_bind, Option.bind_eq_some_iff, mapM_eq_some_iff,
    mean?_eq_some_iff, IsMean, List.length_map, ne_eq, List.map_eq_nil_iff]
  constructor
  · rintro ⟨values, hvalues, hne, hx⟩
    exact ⟨values, hne, hvalues, hx⟩
  · rintro ⟨values, hne, hvalues, hx⟩
    exact ⟨values, hvalues, hne, hx⟩

theorem isSome_meanOfAll?_iff : (meanOfAll? figure blocks).isSome ↔
    blocks ≠ [] ∧ ∀ b ∈ blocks, (figure b).isSome := by
  rw [Option.isSome_iff_exists]
  simp only [meanOfAll?_eq_some_iff]
  constructor
  · rintro ⟨x, values, hne, hvalues, -⟩
    refine ⟨fun hnil => hne (by simpa [hnil] using hvalues.symm), fun b hb => ?_⟩
    have hmem : figure b ∈ values.map some := hvalues ▸ List.mem_map_of_mem hb
    obtain ⟨v, -, hv⟩ := List.mem_map.1 hmem
    rw [← hv]
    rfl
  · rintro ⟨hne, hall⟩
    have hfigures : blocks.map figure = (blocks.filterMap figure).map some := by
      rw [List.map_filterMap_some_eq_filter_map_isSome, List.filter_eq_self.2]
      simpa using hall
    refine ⟨_, blocks.filterMap figure, fun hnil => ?_, hfigures, rfl⟩
    simp [hnil, hne] at hfigures

end average

/-! ## The statistics of samples and of blocks -/

theorem isSome_deviation?_iff {samples : List Float} :
    (deviation? samples).isSome ↔ 2 ≤ samples.length := by
  rw [deviation?]
  split_ifs with hfew
  · simpa using hfew
  · cases samples with
    | nil => simp at hfew
    | cons x xs => exact ⟨fun _ => Nat.not_lt.1 hfew, fun _ => rfl⟩

theorem ThroughputFigures.ofSamples?_eq_none_iff {samples : List Float} :
    ofSamples? samples = none ↔ samples = [] := by
  cases samples with
  | nil => simp [ofSamples?, mean?]
  | cons x xs => simp [ofSamples?, mean?, least?, greatest?]

theorem ThroughputFigures.of_ofSamples? {samples : List Float} {t : ThroughputFigures}
    (h : ofSamples? samples = some t) :
    t.count = samples.length ∧ t.stdev = deviation? samples := by
  simp only [ofSamples?, Option.bind_eq_bind, Option.bind_eq_some_iff, Option.pure_def,
    Option.some.injEq] at h
  obtain ⟨_, -, _, -, _, -, rfl⟩ := h
  exact ⟨rfl, rfl⟩

namespace ProfilerFigures

variable {blocks : List Block} {p : ProfilerFigures}

theorem of_ofBlocks? (h : ofBlocks? blocks = some p) :
    p.count = blocks.length ∧ p.cycles = meanOfAll? Block.cyclesTotal blocks ∧
      p.execPercent = meanOfAll? Block.execPercent blocks ∧
      p.bandwidth = meanOfAll? Block.bandwidthTotal blocks := by
  simp only [ofBlocks?, Option.bind_eq_bind, Option.bind_eq_some_iff, Option.pure_def,
    Option.some.injEq] at h
  obtain ⟨_, -, rfl⟩ := h
  exact ⟨rfl, rfl, rfl, rfl⟩

theorem elects_of_ofBlocks? (h : ofBlocks? blocks = some p) :
    Elects (blocks.map (·.vote)) p.bottleneck := by
  have hvote := bottleneck_ofBlocks? blocks
  rw [h, Option.map_some, eq_comm] at hvote
  exact mostFrequent?_eq_some_iff.1 hvote

theorem bind_ofBlocks? {average : ProfilerFigures → Option Float} {figure : Block → Option UInt64}
    (h : ∀ p, ofBlocks? blocks = some p → average p = meanOfAll? figure blocks) :
    (ofBlocks? blocks).bind average = meanOfAll? figure blocks := by
  cases hp : ofBlocks? blocks with
  | none =>
    rw [ofBlocks?_eq_none_iff.1 hp]
    rfl
  | some p => exact h p hp

end ProfilerFigures

/-! ## The blocks that count -/

/-- The lines of the blocks that count, in the order of their ends: two sentinels enclose them, and
one of them supplies some figure. -/
def countedBodies (lines : List String) : List (List String) :=
  ((enclosures lines).map fun p => between lines p.1 p.2).filter fun body =>
    ∃ line ∈ body, SuppliesGroup line

theorem mem_countedBodies {lines body : List String} : body ∈ countedBodies lines ↔
    ∃ s e, Encloses lines s e ∧ body = between lines s e ∧ ∃ line ∈ body, SuppliesGroup line := by
  simp only [countedBodies, List.mem_filter, List.mem_map, Prod.exists, decide_eq_true_eq,
    mem_enclosures]
  constructor
  · rintro ⟨⟨s, e, hencloses, rfl⟩, hsupplies⟩
    exact ⟨s, e, hencloses, rfl, hsupplies⟩
  · rintro ⟨s, e, hencloses, rfl, hsupplies⟩
    exact ⟨⟨s, e, hencloses, rfl⟩, hsupplies⟩

theorem filterMap_ofLines? (bodies : List (List String)) :
    bodies.filterMap Block.ofLines? =
      (bodies.filter fun body => ∃ line ∈ body, SuppliesGroup line).map Block.ofLines := by
  induction bodies with
  | nil => rfl
  | cons body bodies ih =>
    by_cases h : ∃ line ∈ body, SuppliesGroup line
    · have hne : Block.ofLines body ≠ {} := fun hempty => by
        rw [← Block.isSome_ofLines?_iff, Block.ofLines?_of_empty hempty] at h
        cases h
      rw [List.filterMap_cons_some (Block.ofLines?_of_ne hne), ih,
        List.filter_cons_of_pos (by simpa using h), List.map_cons]
    · have hnone : Block.ofLines? body = none := by
        rwa [← Block.isSome_ofLines?_iff, Option.not_isSome_iff_eq_none] at h
      rw [List.filterMap_cons_none hnone, ih, List.filter_cons_of_neg (by simpa using h)]

theorem blocks_eq (lines : List String) :
    (Metrics.ofLines lines).blocks = (countedBodies lines).map Block.ofLines := by
  have hblocks : (Metrics.ofLines lines).blocks = enclosedBlocks lines :=
    (Scan.invariant_ofLines lines).blocks
  rw [hblocks, enclosedBlocks, countedBodies, ← filterMap_ofLines?, List.filterMap_map]
  rfl

/-- The cycles that are reported on the last line of a body that supplies any. -/
def cyclesOf (body : List String) : Option Cycles := (lastLine? SuppliesCycles body).bind cycles?

/-- The bandwidth that is reported on the last line of a body that supplies any. -/
def bandwidthOf (body : List String) : Option Bandwidth :=
  (lastLine? SuppliesBandwidth body).bind bandwidth?

/-- What a body votes for: the bottleneck that it names last, or `Unknown` if it names none. -/
def voteOf (body : List String) : Bottleneck :=
  ((lastLine? NamesBottleneck body).bind bottleneck?).getD .unknown

theorem isSome_cyclesOf_iff (body : List String) :
    (cyclesOf body).isSome ↔ ∃ line ∈ body, SuppliesCycles line :=
  isSome_bind_lastLine?_iff (P := SuppliesCycles) isSome_cycles?_iff body

theorem isSome_bandwidthOf_iff (body : List String) :
    (bandwidthOf body).isSome ↔ ∃ line ∈ body, SuppliesBandwidth line :=
  isSome_bind_lastLine?_iff (P := SuppliesBandwidth) isSome_bandwidth?_iff body

theorem votes_eq (lines : List String) :
    (Metrics.ofLines lines).blocks.map (·.vote) = (countedBodies lines).map voteOf := by
  rw [blocks_eq, List.map_map]
  refine List.map_congr_left fun body _ => ?_
  rw [Function.comp_apply, Block.vote, Block.bottleneck_ofLines, voteOf]

theorem length_samples (lines : List String) :
    (Metrics.ofLines lines).samples.length = lines.countP (CarriesSample ·) := by
  rw [samples_eq, List.length_filterMap_eq_countP]
  exact List.countP_congr fun line _ => by simp [isSome_sample?_iff]

theorem isSome_throughput_iff (lines : List String) :
    (ThroughputFigures.ofSamples? (Metrics.ofLines lines).samples).isSome ↔
      ∃ line ∈ lines, CarriesSample line := by
  rw [← not_iff_not, Option.not_isSome_iff_eq_none, ThroughputFigures.ofSamples?_eq_none_iff,
    ← List.length_eq_zero_iff, length_samples, List.countP_eq_zero]
  simp

theorem isSome_profiler_iff (lines : List String) :
    (ProfilerFigures.ofBlocks? (Metrics.ofLines lines).blocks).isSome ↔
      ∃ s e, Encloses lines s e ∧ ∃ line ∈ between lines s e, SuppliesGroup line := by
  rw [← not_iff_not, Option.not_isSome_iff_eq_none, ProfilerFigures.ofBlocks?_eq_none_iff,
    blocks_eq, List.map_eq_nil_iff, List.eq_nil_iff_forall_not_mem]
  simp only [mem_countedBodies]
  constructor
  · rintro hnone ⟨s, e, hencloses, hsupplies⟩
    exact hnone _ ⟨s, e, hencloses, rfl, hsupplies⟩
  · rintro hnone body ⟨s, e, hencloses, rfl, hsupplies⟩
    exact hnone ⟨s, e, hencloses, hsupplies⟩

theorem average_strict {lines : List String} {average : ProfilerFigures → Option Float}
    (figure : Block → Option UInt64) {reported : List String → Option UInt64}
    {Supplies : String → Prop}
    (haverage : ∀ blocks p, ProfilerFigures.ofBlocks? blocks = some p →
      average p = meanOfAll? figure blocks)
    (hfigure : ∀ body, figure (Block.ofLines body) = reported body)
    (hsupplies : ∀ body, (reported body).isSome ↔ ∃ line ∈ body, Supplies line) :
    (((ProfilerFigures.ofBlocks? (Metrics.ofLines lines).blocks).bind average).isSome ↔
      (ProfilerFigures.ofBlocks? (Metrics.ofLines lines).blocks).isSome ∧
        ∀ body ∈ countedBodies lines, ∃ line ∈ body, Supplies line) ∧
    ∀ x, (ProfilerFigures.ofBlocks? (Metrics.ofLines lines).blocks).bind average = some x ↔
      IsMean x ((countedBodies lines).map reported) := by
  have hsome : (ProfilerFigures.ofBlocks? (Metrics.ofLines lines).blocks).isSome ↔
      (Metrics.ofLines lines).blocks ≠ [] := by
    rw [← not_iff_not, Option.not_isSome_iff_eq_none, ProfilerFigures.ofBlocks?_eq_none_iff,
      not_not]
  have hreported : (figure ∘ Block.ofLines) = reported := funext hfigure
  -- Both sides now speak of the blocks that count, and `hfigure` of the bodies behind them.
  rw [ProfilerFigures.bind_ofBlocks? (haverage _), isSome_meanOfAll?_iff, hsome, blocks_eq]
  refine ⟨?_, fun x => ?_⟩
  · simp only [List.forall_mem_map, hfigure, hsupplies]
  · rw [meanOfAll?_eq_some_iff, List.map_map, hreported]

/-- **A summary shows what every block has and leaves out the rest.** There is a throughput exactly
if some line carries a sample, of as many samples as lines do, and with a deviation from two on.
There are statistics of blocks exactly if some block that two sentinels enclose supplies a figure,
and only such blocks count and vote. An average is shown exactly if some line of each of them
supplies the figure, and is the mean of what the last such line of each reports, in their order. -/
theorem ofMetrics_strict (lines : List String) :
    let throughput := (Summary.ofMetrics (Metrics.ofLines lines)).throughput
    let profiler := (Summary.ofMetrics (Metrics.ofLines lines)).profiler
    let bodies := countedBodies lines
    ((throughput.isSome ↔ ∃ line ∈ lines, CarriesSample line) ∧
      ∀ t, throughput = some t →
        t.count = lines.countP (CarriesSample ·) ∧ (t.stdev.isSome ↔ 2 ≤ t.count)) ∧
    ((profiler.isSome ↔
        ∃ s e, Encloses lines s e ∧ ∃ line ∈ between lines s e, SuppliesGroup line) ∧
      ∀ p, profiler = some p → p.count = bodies.length ∧ Elects (bodies.map voteOf) p.bottleneck) ∧
    (((profiler.bind (·.cycles)).isSome ↔
        profiler.isSome ∧ ∀ body ∈ bodies, ∃ line ∈ body, SuppliesCycles line) ∧
      ∀ x, profiler.bind (·.cycles) = some x ↔
        IsMean x (bodies.map fun body => (cyclesOf body).map (·.total))) ∧
    (((profiler.bind (·.execPercent)).isSome ↔
        profiler.isSome ∧ ∀ body ∈ bodies, ∃ line ∈ body, SuppliesCycles line) ∧
      ∀ x, profiler.bind (·.execPercent) = some x ↔
        IsMean x (bodies.map fun body => (cyclesOf body).map (·.execPercent))) ∧
    (((profiler.bind (·.bandwidth)).isSome ↔
        profiler.isSome ∧ ∀ body ∈ bodies, ∃ line ∈ body, SuppliesBandwidth line) ∧
      ∀ x, profiler.bind (·.bandwidth) = some x ↔
        IsMean x (bodies.map fun body => (bandwidthOf body).map (·.total))) := by
  intro throughput profiler bodies
  refine ⟨⟨isSome_throughput_iff lines, fun t ht => ?_⟩,
    ⟨isSome_profiler_iff lines, fun p hp => ?_⟩, average_strict Block.cyclesTotal ?_ ?_ ?_,
    average_strict Block.execPercent ?_ ?_ ?_, average_strict Block.bandwidthTotal ?_ ?_ ?_⟩
  · obtain ⟨hcount, hstdev⟩ := ThroughputFigures.of_ofSamples? ht
    rw [hcount, hstdev, isSome_deviation?_iff, length_samples]
    exact ⟨rfl, Iff.rfl⟩
  · have helects := ProfilerFigures.elects_of_ofBlocks? hp
    rw [votes_eq] at helects
    rw [(ProfilerFigures.of_ofBlocks? hp).1, blocks_eq, List.length_map]
    exact ⟨rfl, helects⟩
  · exact fun blocks p hp => (ProfilerFigures.of_ofBlocks? hp).2.1
  · exact fun body => congrArg (Option.map Cycles.total) (Block.cycles_ofLines body)
  · exact fun body => by rw [Option.isSome_map, isSome_cyclesOf_iff]
  · exact fun blocks p hp => (ProfilerFigures.of_ofBlocks? hp).2.2.1
  · exact fun body => congrArg (Option.map Cycles.execPercent) (Block.cycles_ofLines body)
  · exact fun body => by rw [Option.isSome_map, isSome_cyclesOf_iff]
  · exact fun blocks p hp => (ProfilerFigures.of_ofBlocks? hp).2.2.2
  · exact fun body => congrArg (Option.map Bandwidth.total) (Block.bandwidth_ofLines body)
  · exact fun body => by rw [Option.isSome_map, isSome_bandwidthOf_iff]

/-- A capture with two blocks that count, of which one reports no cycles, between a block without
figures and one that does not end. -/
def mixedCapture : List String :=
  ["boot (2.07 MIPS)", "========== CPU PROFILER ==========",
    "Cycles/instr: fetch=1 (2%) exec=3 (4%) total=5",
    "PSRAM bandwidth: read=6KB/s write=7KB/s total=8KB/s", "==================================",
    "========== CPU PROFILER ==========", "idle", "==================================",
    "========== CPU PROFILER ==========", "PSRAM bandwidth: read=9KB/s write=0KB/s total=9KB/s",
    "==================================", "========== CPU PROFILER ==========", "BOTTLENECK: CPU"]

theorem ofMetrics_strict_mixed :
    ∃ t p, (Summary.ofMetrics (Metrics.ofLines mixedCapture)).throughput = some t ∧
      (Summary.ofMetrics (Metrics.ofLines mixedCapture)).profiler = some p ∧
      t.count = 1 ∧ t.stdev.isSome = false ∧ p.count = 2 ∧
      p.cycles.isSome = false ∧ p.bandwidth.isSome = true := by
  obtain ⟨⟨hthroughput, hsamples⟩, ⟨hprofiler, hblocks⟩, ⟨hcycles, -⟩, -, hbandwidth, -⟩ :=
    ofMetrics_strict mixedCapture
  obtain ⟨t, ht⟩ := Option.isSome_iff_exists.1 (hthroughput.2 (by decide +kernel))
  obtain ⟨p, hp⟩ := Option.isSome_iff_exists.1
    (hprofiler.2 ⟨1, 4, by decide +kernel, by decide +kernel⟩)
  obtain ⟨htcount, hstdev⟩ := hsamples t ht
  have hone : t.count = 1 := htcount.trans (by decide +kernel)
  have hbodies : countedBodies mixedCapture = [["Cycles/instr: fetch=1 (2%) exec=3 (4%) total=5",
      "PSRAM bandwidth: read=6KB/s write=7KB/s total=8KB/s"],
      ["PSRAM bandwidth: read=9KB/s write=0KB/s total=9KB/s"]] := by decide +kernel
  have htwo : p.count = 2 := (hblocks p hp).1.trans (by rw [hbodies]; rfl)
  have hlacks : ¬∀ body ∈ countedBodies mixedCapture, ∃ line ∈ body, SuppliesCycles line := by
    rw [hbodies]
    decide +kernel
  have hall : ∀ body ∈ countedBodies mixedCapture, ∃ line ∈ body, SuppliesBandwidth line := by
    rw [hbodies]
    decide +kernel
  rw [hp, Option.bind_some] at hcycles hbandwidth
  refine ⟨t, p, ht, hp, hone, ?_, htwo, ?_, hbandwidth.2 ⟨rfl, hall⟩⟩
  · rw [← Bool.not_eq_true, hstdev, hone]
    decide
  · rw [← Bool.not_eq_true]
    exact fun h => hlacks (hcycles.1 h).2

end BenchLedger
