import BenchLedger.Proofs.Profiler.Forms
import BenchLedger.Proofs.Summary.Status
import BenchLedger.Proofs.Throughput.Samples
import BenchLedger.Summary

/-!
# Noise

A line is noise if nothing that is measured stands on it. Noise may be put between the lines of a
capture, or taken out, anywhere: `ofLines_padded`. Inside a block it is held with the lines of the
block, so two passes over a capture with more and with less noise hold different lines. They hold
the same figures, though, and that is what a step of both passes keeps (`Scan.Alike`).
-/

namespace BenchLedger

open Text Profiler Throughput

/-! ## Lines that measure nothing -/

/-- A line without a sample, a sentinel, a group of figures or a marker. -/
structure IsNoise (line : String) : Prop where
  sample : ¬CarriesSample line
  start : ¬"========== CPU PROFILER ==========".toList <:+: line.toList
  finish : ¬"==================================".toList <:+: line.toList
  cycles : ¬∃ runs text, text <:+: line.toList ∧ IsCycles runs text
  bandwidth : ¬∃ runs text, text <:+: line.toList ∧ IsBandwidth runs text
  cpu : ¬"BOTTLENECK: CPU".toList <:+: line.toList
  psram : ¬"BOTTLENECK: PSRAM".toList <:+: line.toList
  connection : ¬IsConnection line
  failure : ¬IsFailure line

theorem isNoise_iff (line : String) : IsNoise line ↔
    sample? line = none ∧ opensBlock line = false ∧ closesBlock line = false ∧
      Block.ofLine line = {} ∧ Markers.reportsConnection line = false ∧
      Markers.reportsFailure line = false := by
  have hblock : Block.ofLine line = {} ↔
      cycles? line = none ∧ bandwidth? line = none ∧ bottleneck? line = none := by
    rw [Block.ofLine, Block.mk.injEq]
  rw [hblock, bottleneck?_eq_none_iff, ← Option.not_isSome_iff_eq_none (o := sample? line),
    ← Option.not_isSome_iff_eq_none (o := cycles? line),
    ← Option.not_isSome_iff_eq_none (o := bandwidth? line), isSome_sample?_iff,
    isSome_cycles?_iff, isSome_bandwidth?_iff]
  simp only [← Bool.not_eq_true, opensBlock, closesBlock, occursIn_iff, reportsConnection_iff,
    reportsFailure_iff]
  constructor
  · rintro ⟨h₁, h₂, h₃, h₄, h₅, h₆, h₇, h₈, h₉⟩
    exact ⟨h₁, h₂, h₃, ⟨h₄, h₅, h₆, h₇⟩, h₈, h₉⟩
  · rintro ⟨h₁, h₂, h₃, ⟨h₄, h₅, h₆, h₇⟩, h₈, h₉⟩
    exact ⟨h₁, h₂, h₃, h₄, h₅, h₆, h₇, h₈, h₉⟩

instance : DecidablePred IsNoise := fun line => decidable_of_iff _ (isNoise_iff line).symm

/-! ## Lines among which noise was put -/

/-- `padded` has the lines of `lines` in their order, and noise anywhere between them. -/
inductive Padded : (lines padded : List String) → Prop
  | nil : Padded [] []
  | keep (line : String) {lines padded : List String} (h : Padded lines padded) :
      Padded (line :: lines) (line :: padded)
  | noise {line : String} (hline : IsNoise line) {lines padded : List String}
      (h : Padded lines padded) : Padded lines (line :: padded)

theorem Padded.markers {lines padded : List String} (h : Padded lines padded) :
    Markers.ofLines padded = Markers.ofLines lines := by
  have hcons (line : String) (rest : List String) : Markers.ofLines (line :: rest) =
      ⟨Markers.reportsConnection line || (Markers.ofLines rest).connected,
        Markers.reportsFailure line || (Markers.ofLines rest).failure⟩ := rfl
  induction h with
  | nil => rfl
  | keep line h ih => rw [hcons, hcons, ih]
  | noise hline h ih =>
    obtain ⟨-, -, -, -, hconnection, hfailure⟩ := (isNoise_iff _).1 hline
    rw [hcons, ih, hconnection, hfailure]
    rfl

namespace Scan

/-- Two passes have found the same. Of the lines that they hold, only the figures need to agree. -/
structure Alike (s s' : Scan) : Prop where
  samples : s.samples = s'.samples
  blocks : s.blocks = s'.blocks
  isOpen : s.isOpen = s'.isOpen
  body : Block.ofLines s.body.reverse = Block.ofLines s'.body.reverse

variable {s s' : Scan}

protected theorem Alike.refl (s : Scan) : Alike s s := ⟨rfl, rfl, rfl, rfl⟩

theorem ofLines?_congr {lines lines' : List String}
    (h : Block.ofLines lines = Block.ofLines lines') :
    Block.ofLines? lines = Block.ofLines? lines' := by
  rw [Block.ofLines?, Block.ofLines?, h]

theorem Alike.feed (h : Alike s s') (line : String) : Alike (s.feed line) (s'.feed line) := by
  obtain ⟨hsamples, hblocks, hopen, hbody⟩ := h
  unfold Scan.feed feedBlock
  rw [hsamples, hopen]
  dsimp only
  split_ifs with hopens hcloses hheld
  · exact ⟨rfl, hblocks, rfl, rfl⟩
  · exact ⟨rfl, by rw [hblocks, ofLines?_congr hbody], rfl, hbody⟩
  · refine ⟨rfl, hblocks, rfl, ?_⟩
    rw [List.reverse_cons, List.reverse_cons, Block.ofLines_append, Block.ofLines_append, hbody]
  · exact ⟨rfl, hblocks, rfl, hbody⟩

/-- Noise does nothing, but that an open block may hold it. -/
theorem Alike.feed_noise (h : Alike s s') {line : String} (hline : IsNoise line) :
    Alike s (s'.feed line) := by
  obtain ⟨hsample, hopens, hcloses, hfigures, -, -⟩ := (isNoise_iff line).1 hline
  obtain ⟨hsamples, hblocks, hopen, hbody⟩ := h
  have hheld : Block.ofLines (line :: s'.body).reverse = Block.ofLines s'.body.reverse := by
    rw [List.reverse_cons, Block.ofLines_append]
    have hsingle : Block.ofLines [line] = {} := (Block.empty_merge _).trans hfigures
    rw [hsingle, Block.merge_empty]
  unfold Scan.feed feedBlock
  simp only [hsample, hopens, hcloses, Bool.and_false, Bool.false_eq_true, if_false,
    Option.toList_none, List.nil_append]
  split_ifs
  · exact ⟨hsamples, hblocks, hopen, hbody.trans hheld.symm⟩
  · exact ⟨hsamples, hblocks, hopen, hbody⟩

theorem Alike.foldl (h : Alike s s') {lines padded : List String} (hpadded : Padded lines padded) :
    Alike (lines.foldl Scan.feed s) (padded.foldl Scan.feed s') := by
  induction hpadded generalizing s s' with
  | nil => exact h
  | keep line hpadded ih => exact ih (h.feed line)
  | noise hline hpadded ih => exact ih (h.feed_noise hline)

end Scan

/-- **Noise is invisible.** Noise that is put between the lines of a capture at any places, or taken
out from there, changes nothing of what is measured, and so nothing of the summary. -/
theorem ofLines_padded {lines padded : List String} (h : Padded lines padded) :
    Metrics.ofLines padded = Metrics.ofLines lines ∧
    Summary.ofMetrics (Metrics.ofLines padded) = Summary.ofMetrics (Metrics.ofLines lines) := by
  have hmetrics : Metrics.ofLines padded = Metrics.ofLines lines := by
    have hscan : Scan.Alike (Scan.ofLines lines) (Scan.ofLines padded) :=
      (Scan.Alike.refl {}).foldl h
    rw [Metrics.ofLines, Metrics.ofLines, hscan.samples, hscan.blocks, h.markers]
  exact ⟨hmetrics, congrArg Summary.ofMetrics hmetrics⟩

theorem ofLines_padded_block :
    (Metrics.ofLines ["(2.07 MIPS", "========== CPU PROFILER ==========",
      "Cycles/instr: fetch=14 (11%) exec=109 (89%)", "BOTTLENECK: CPU", "Top opcodes:",
      "==================================", "wifi connected"]).blocks =
    (Metrics.ofLines ["========== CPU PROFILER ==========", "BOTTLENECK: CPU",
      "=================================="]).blocks := by
  refine congrArg Metrics.blocks (ofLines_padded ?_).1
  refine .noise (by decide +kernel) (.keep _ (.noise (by decide +kernel) (.keep _ ?_)))
  exact .noise (by decide +kernel) (.keep _ (.noise (by decide +kernel) .nil))

end BenchLedger
