import BenchLedger.Proofs.Record.Contents
import BenchLedger.Proofs.Session.Replay
import BenchLedger.Proofs.Summary.Finite

/-!
# Numbers in the record of a run

A statistic stands in a record as a number exactly if it is finite (`Record.ToldBy.shows`). The
statistics of the profiler always are, those of the samples only as far as these are finite or have
few digits (`Run.conclude_numbers`): beyond, the squares of the deviation leave the range first, and
then the record holds `null` where a statistic is present.
-/

namespace BenchLedger

open Disk Json Text

/-! ## Statistics in a reading -/

/-- The statistics of a summary and where a record tells them. -/
def Summary.statistics (s : Summary) : List (List String × Option Float) :=
  [(["summary", "throughput", "mean"], s.throughput.map (·.mean)),
   (["summary", "throughput", "min"], s.throughput.map (·.min)),
   (["summary", "throughput", "max"], s.throughput.map (·.max)),
   (["summary", "throughput", "stdev"], s.throughput.bind (·.stdev)),
   (["summary", "profiler", "cycles_avg"], s.profiler.bind (·.cycles)),
   (["summary", "profiler", "exec_pct_avg"], s.profiler.bind (·.execPercent)),
   (["summary", "profiler", "bandwidth_avg_kbps"], s.profiler.bind (·.bandwidth))]

/-- A reading tells a statistic by a number if it is finite, by `null` if it is not, and by the
absence of its name if it is absent. -/
structure Json.Reading.Shows (d : Reading) (path : List String) (figure : Option Float) : Prop where
  absent : d.at? path = none ↔ figure = none
  null : d.at? path = some .null ↔ ∃ x, figure = some x ∧ x.isFinite = false
  number : (∃ text, d.at? path = some (.number text)) ↔ ∃ x, figure = some x ∧ x.isFinite = true

/-- Under a path stands a number, if anything. -/
def Json.Reading.NumberAt (d : Reading) (path : List String) : Prop :=
  ∀ v, d.at? path = some v → ∃ text, v = .number text

namespace Json.Reading

variable {d : Reading} {path : List String} {figure : Option Float}

theorem shows_of_eq (h : d.at? path = figure.map fun x => (Value.real x).reading) :
    d.Shows path figure := by
  cases figure with
  | none => constructor <;> simp [h]
  | some x =>
    have hfinite := Floating.isSome_numberText? x
    rw [Option.map_some, Value.reading] at h
    cases htext : numberText? x with
    | none =>
      rw [htext] at h hfinite
      constructor <;> simp [h, ← hfinite]
    | some text =>
      rw [htext] at h hfinite
      constructor <;> simp [h, ← hfinite]

theorem Shows.numberAt (h : d.Shows path figure)
    (hfinite : ∀ x, figure = some x → x.isFinite = true) : d.NumberAt path := by
  intro v hv
  cases hfigure : figure with
  | none =>
    rw [h.absent.2 hfigure] at hv
    cases hv
  | some x =>
    obtain ⟨text, hnumber⟩ := h.number.2 ⟨x, hfigure, hfinite x hfigure⟩
    exact ⟨text, Option.some.inj (hv.symm.trans hnumber)⟩

theorem Shows.exists_number (h : d.Shows path figure) (hfigure : figure.isSome = true)
    (hnumber : d.NumberAt path) : ∃ text, d.at? path = some (.number text) := by
  cases hat : d.at? path with
  | none =>
    rw [h.absent.1 hat] at hfigure
    cases hfigure
  | some v =>
    obtain ⟨text, rfl⟩ := hnumber v hat
    exact ⟨text, rfl⟩

theorem Shows.numberAt_map {α : Type} {part : Option α} {figure : α → Float}
    (h : d.Shows path (part.map figure))
    (hfinite : ∀ a, part = some a → (figure a).isFinite = true) : d.NumberAt path := by
  refine h.numberAt fun x hx => ?_
  obtain ⟨a, ha, rfl⟩ := Option.map_eq_some_iff.1 hx
  exact hfinite a ha

theorem Shows.numberAt_bind {α : Type} {part : Option α} {figure : α → Option Float}
    (h : d.Shows path (part.bind figure))
    (hfinite : ∀ a, part = some a → ∀ x, figure a = some x → x.isFinite = true) :
    d.NumberAt path := by
  refine h.numberAt fun x hx => ?_
  obtain ⟨a, ha, hx⟩ := Option.bind_eq_some_iff.1 hx
  exact hfinite a ha x hx

end Json.Reading

namespace Record.ToldBy

variable {r : Record} {d : Reading}

theorem shows (h : r.ToldBy d) : ∀ entry ∈ r.summary.statistics, d.Shows entry.1 entry.2 := by
  have hmap {α : Type} (part : Option α) (figure : α → Float) :
      (part.map fun t => (Value.real (figure t)).reading) =
        (part.map figure).map fun x => (Value.real x).reading := by
    rw [Option.map_map]
    rfl
  simp only [Summary.statistics, List.forall_mem_cons]
  exact ⟨Reading.shows_of_eq (h.mean.trans (hmap _ _)), Reading.shows_of_eq (h.min.trans (hmap _ _)),
    Reading.shows_of_eq (h.max.trans (hmap _ _)), Reading.shows_of_eq h.stdev,
    Reading.shows_of_eq h.cycles, Reading.shows_of_eq h.execPercent, Reading.shows_of_eq h.bandwidth,
    nofun⟩

theorem numberAt_range (h : r.ToldBy d) (hfinite : ∀ t, r.summary.throughput = some t →
      t.min.isFinite = true ∧ t.max.isFinite = true) :
    ∀ name ∈ ["min", "max"], d.NumberAt ["summary", "throughput", name] := by
  have hshows := h.shows
  simp only [Summary.statistics, List.forall_mem_cons] at hshows ⊢
  obtain ⟨-, hmin, hmax, -⟩ := hshows
  exact ⟨hmin.numberAt_map fun t ht => (hfinite t ht).1,
    hmax.numberAt_map fun t ht => (hfinite t ht).2, nofun⟩

theorem numberAt_mean (h : r.ToldBy d)
    (hfinite : ∀ t, r.summary.throughput = some t → t.mean.isFinite = true) :
    d.NumberAt ["summary", "throughput", "mean"] := by
  have hshows := h.shows
  simp only [Summary.statistics, List.forall_mem_cons] at hshows
  exact hshows.1.numberAt_map hfinite

theorem numberAt_stdev (h : r.ToldBy d) (hfinite : ∀ t, r.summary.throughput = some t →
      ∀ x, t.stdev = some x → x.isFinite = true) :
    d.NumberAt ["summary", "throughput", "stdev"] := by
  have hshows := h.shows
  simp only [Summary.statistics, List.forall_mem_cons] at hshows
  obtain ⟨-, -, -, hstdev, -⟩ := hshows
  exact hstdev.numberAt_bind hfinite

theorem numberAt_profiler (h : r.ToldBy d)
    (hfinite : ∀ p, r.summary.profiler = some p → p.IsFinite) :
    ∀ name ∈ ["cycles_avg", "exec_pct_avg", "bandwidth_avg_kbps"],
      d.NumberAt ["summary", "profiler", name] := by
  have hshows := h.shows
  simp only [Summary.statistics, List.forall_mem_cons] at hshows ⊢
  obtain ⟨-, -, -, -, hcycles, hexec, hbandwidth, -⟩ := hshows
  exact ⟨hcycles.numberAt_bind fun p hp => (hfinite p hp).cycles,
    hexec.numberAt_bind fun p hp => (hfinite p hp).execPercent,
    hbandwidth.numberAt_bind fun p hp => (hfinite p hp).bandwidth, nofun⟩

end Record.ToldBy

/-! ## Statistics of a run -/

namespace Run

open Capture

variable {o : Outcome} {r : Request} {clock : Clock} {w w' : World} {result : Result} {p : Path}

theorem conclude_document (hp : r.record = some p) (h : conclude o r clock w = .ok result w') :
    ∃ place, w'.tree.locate p = .ok place ∧ (w'.tree.get? place = some .sink ∨
      ∃ text d, w'.tree.get? place = some (.file (Utf8.encode text)) ∧ IsDocument text d ∧
        (recordOf o result.summary r clock).ToldBy d) := by
  obtain ⟨-, -, -, -, w₀, w₁, w₂, w₃, -, -, -, hrecord, hafter, -⟩ := conclude_eq_ok h
  rcases keepRecord_eq_ok hrecord with ⟨q, hq, hkept⟩ | ⟨hnone, -⟩
  · obtain rfl : q = p := Option.some.inj (hq.symm.trans hp)
    obtain ⟨place, hleads, -, hstands⟩ := Record.keep_eq_ok hkept
    rw [hafter]
    refine ⟨place, hleads, ?_⟩
    rcases hstands with hfile | ⟨-, hsink⟩
    · exact .inr ⟨_, _, hfile, isDocument_print _, Record.toldBy_reading _⟩
    · exact .inl hsink
  · rw [hp] at hnone
    cases hnone

/-- **A statistic of a record is a number wherever it is finite.** The record of a run that succeeds
tells a statistic by a number if it is finite, by `null` if it is not, and an absent one by the
absence of its name. All means of the profiler are numbers. The ends of the range of the throughput
are numbers if all samples are finite. However many samples there are, their mean is a number if
nowhere in the lines more than 270 digits stand in a row, and their deviation if no more than 120
do. -/
theorem conclude_numbers (hp : r.record = some p) (h : conclude o r clock w = .ok result w') :
    ∃ place, w'.tree.locate p = .ok place ∧ (w'.tree.get? place = some .sink ∨
      ∃ text d, w'.tree.get? place = some (.file (Utf8.encode text)) ∧
        IsDocument text d ∧ (∀ d', IsDocument text d' → d' = d) ∧
        (∀ entry ∈ result.summary.statistics, d.Shows entry.1 entry.2) ∧
        (∀ name ∈ ["cycles_avg", "exec_pct_avg", "bandwidth_avg_kbps"],
          d.NumberAt ["summary", "profiler", name]) ∧
        ((∀ x ∈ result.metrics.samples, x.isFinite = true) →
          ∀ name ∈ ["min", "max"], d.NumberAt ["summary", "throughput", name]) ∧
        ((∀ line ∈ o.lines, Throughput.HasRunsUpTo 270 line) →
          ∀ name ∈ ["mean", "min", "max"], d.NumberAt ["summary", "throughput", name]) ∧
        ((∀ line ∈ o.lines, Throughput.HasRunsUpTo 120 line) →
          d.NumberAt ["summary", "throughput", "stdev"])) := by
  obtain ⟨place, hleads, hsink | ⟨text, d, hfile, hdocument, htold⟩⟩ := conclude_document hp h
  · exact ⟨place, hleads, .inl hsink⟩
  obtain ⟨-, hmetrics, hsummary, -⟩ := conclude_eq_ok h
  have hthroughput : ThroughputFigures.ofSamples? result.metrics.samples =
      result.summary.throughput := by
    rw [hsummary, hmetrics]
    rfl
  have hprofiler : ProfilerFigures.ofBlocks? result.metrics.blocks = result.summary.profiler := by
    rw [hsummary, hmetrics]
    rfl
  have hrange (hfinite : ∀ x ∈ result.metrics.samples, x.isFinite = true) :=
    htold.numberAt_range fun t ht => ThroughputFigures.isFinite_range (hthroughput.trans ht) hfinite
  refine ⟨place, hleads, .inr ⟨text, d, hfile, hdocument, fun d' hd' => hd'.unique hdocument,
    htold.shows, htold.numberAt_profiler fun f hf => ?_, hrange, fun hruns => ?_, fun hruns => ?_⟩⟩
  · exact ProfilerFigures.isFinite (hprofiler.trans hf)
  · have hsmall : ∀ x ∈ result.metrics.samples, Floating.AtMost 900 x := by
      rw [hmetrics]
      exact fun x hx => atMost_of_mem_samples hruns hx (by decide +kernel) (by norm_num) (by norm_num)
    refine List.forall_mem_cons.2 ⟨htold.numberAt_mean fun t ht => ?_,
      hrange fun x hx => (hsmall x hx).isFinite⟩
    exact ThroughputFigures.isFinite_mean (hthroughput.trans ht) hsmall
  · have hsmall : ∀ x ∈ result.metrics.samples, Floating.AtMost 400 x := by
      rw [hmetrics]
      exact fun x hx => atMost_of_mem_samples hruns hx (by decide +kernel) (by norm_num) (by norm_num)
    exact htold.numberAt_stdev fun t ht x hx =>
      ThroughputFigures.isFinite_stdev (hthroughput.trans ht) hsmall hx

/-- A request that keeps a record and nothing else. -/
def recordOnly : Request := { save := false, record := some ⟨["r".toList]⟩ }

/-- Whether a run on an empty tree writes its record to a file. -/
def writesRecord (lines : List String) : Bool :=
  match conclude ⟨lines, 0, false⟩ recordOnly (midnight 16) ⟨⟨[], []⟩, {}⟩ with
  | .ok _ w' => decide (w'.tree.locate ⟨["r".toList]⟩ = .ok ["r".toList]) &&
      w'.tree.get? ["r".toList] != some .sink
  | .error _ _ => false

theorem exists_of_writesRecord {lines : List String} (h : writesRecord lines = true) :
    ∃ result w', conclude ⟨lines, 0, false⟩ recordOnly (midnight 16) ⟨⟨[], []⟩, {}⟩ =
      .ok result w' ∧ w'.tree.locate ⟨["r".toList]⟩ = .ok ["r".toList] ∧
      w'.tree.get? ["r".toList] ≠ some .sink := by
  unfold writesRecord at h
  split at h
  · rename_i result w' hrun
    simp only [Bool.and_eq_true, decide_eq_true_eq, bne_iff_ne] at h
    exact ⟨result, w', hrun, h⟩
  · cases h

/-- Two samples with few digits, and a block with all figures of the profiler. -/
def measuredLines : List String :=
  ["(2.07 MIPS)", "(3 MIPS)", "========== CPU PROFILER ==========",
   "Cycles/instr: fetch=1 (10%) exec=2 (20%) total=3",
   "PSRAM bandwidth: read=1KB/s write=2KB/s total=3KB/s", "=================================="]

theorem hasRunsUpTo_measuredLines : ∀ line ∈ measuredLines, Throughput.HasRunsUpTo 120 line := by
  have hshort : ∀ line ∈ measuredLines, line.toList.length ≤ 120 := by decide +kernel
  exact fun line hline run _ hrun => hrun.length_le.trans (hshort line hline)

theorem conclude_numbers_measured : ∃ result w' text d,
    conclude ⟨measuredLines, 0, false⟩ recordOnly (midnight 16) ⟨⟨[], []⟩, {}⟩ = .ok result w' ∧
    w'.tree.get? ["r".toList] = some (.file (Utf8.encode text)) ∧ IsDocument text d ∧
    ∀ entry ∈ result.summary.statistics, ∃ number, d.at? entry.1 = some (.number number) := by
  have hwrites : writesRecord measuredLines = true := by decide +kernel
  have hpresent : ∀ entry ∈ (Summary.ofMetrics (Metrics.ofLines measuredLines)).statistics,
      entry.2.isSome = true := by decide +kernel
  obtain ⟨result, w', hrun, hleads, hnoSink⟩ := exists_of_writesRecord hwrites
  obtain ⟨-, -, hsummary, -⟩ := conclude_eq_ok hrun
  rw [← hsummary] at hpresent
  obtain ⟨place, hplace, hstands⟩ := conclude_numbers rfl hrun
  obtain rfl : place = ["r".toList] := Except.ok.inj (hplace.symm.trans hleads)
  obtain ⟨text, d, hfile, hdocument, -, hshows, hprofiler, -, hthroughput, hstdev⟩ :=
    hstands.resolve_left hnoSink
  have hmean := hthroughput fun line hline run hdigits hpart =>
    (hasRunsUpTo_measuredLines line hline run hdigits hpart).trans (by norm_num)
  have hnumber : ∀ entry ∈ result.summary.statistics, d.NumberAt entry.1 := by
    simp only [Summary.statistics, List.forall_mem_cons] at hmean hprofiler ⊢
    obtain ⟨hcycles, hexec, hbandwidth, -⟩ := hprofiler
    exact ⟨hmean.1, hmean.2.1, hmean.2.2.1, hstdev hasRunsUpTo_measuredLines, hcycles, hexec,
      hbandwidth, nofun⟩
  exact ⟨result, w', text, d, hrun, hfile, hdocument, fun entry hentry =>
    (hshows entry hentry).exists_number (hpresent entry hentry) (hnumber entry hentry)⟩

/-- A sample of 201 digits and another one. -/
def hugeLines : List String :=
  [String.ofList ("(1".toList ++ List.replicate 200 '0' ++ " MIPS)".toList), "(0 MIPS)"]

/-- The deviation of numbers with many digits is there, but as `null`: their squares are infinite. -/
theorem conclude_numbers_huge : ∃ result w' text d,
    conclude ⟨hugeLines, 0, false⟩ recordOnly (midnight 16) ⟨⟨[], []⟩, {}⟩ = .ok result w' ∧
    w'.tree.get? ["r".toList] = some (.file (Utf8.encode text)) ∧ IsDocument text d ∧
    d.at? ["summary", "throughput", "stdev"] = some .null := by
  have hwrites : writesRecord hugeLines = true := by decide +kernel
  have hinfinite : ((Summary.ofMetrics (Metrics.ofLines hugeLines)).throughput.bind (·.stdev)).any
      (!·.isFinite) = true := by decide +kernel
  obtain ⟨result, w', hrun, hleads, hnoSink⟩ := exists_of_writesRecord hwrites
  obtain ⟨-, -, hsummary, -⟩ := conclude_eq_ok hrun
  rw [← hsummary] at hinfinite
  obtain ⟨place, hplace, hstands⟩ := conclude_document rfl hrun
  obtain rfl : place = ["r".toList] := Except.ok.inj (hplace.symm.trans hleads)
  obtain ⟨text, d, hfile, hdocument, htold⟩ := hstands.resolve_left hnoSink
  refine ⟨result, w', text, d, hrun, hfile, hdocument, ?_⟩
  have hshows := htold.shows
  simp only [Summary.statistics, List.forall_mem_cons] at hshows
  obtain ⟨-, -, -, hstdev, -⟩ := hshows
  obtain ⟨x, hx, hfinite⟩ := (Option.any_eq_true _ _).1 hinfinite
  exact hstdev.null.2 ⟨x, hx, by simpa using hfinite⟩

end Run

end BenchLedger
