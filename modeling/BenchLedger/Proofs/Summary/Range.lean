import BenchLedger.Proofs.Floating.Order
import BenchLedger.Proofs.Summary.Finite
import BenchLedger.Proofs.Summary.Strict

/-!
# The range of the samples

The least and the greatest sample that a summary shows are samples, bound all of them, and do not
depend on the order of the lines: `ofMetrics_range`. Of samples in general this is not so, since one
that is not a number bounds nothing and of two zeros the first is chosen. But every sample is the
number of a decimal and carries no sign (`Throughput.signFree_sample`), and among such numbers the
choices are those of a linear order, the order of their bits.
-/

namespace BenchLedger

open Floating

namespace Statistics

variable {x y : Float} {xs ys : List Float}

/-! ## Choices by the bits -/

theorem lesser_le (hx : SignFree x) (hy : SignFree y) :
    (lesser x y).toBits.toNat ≤ x.toBits.toNat ∧ (lesser x y).toBits.toNat ≤ y.toBits.toNat := by
  simp only [lesser, hx.isNaN, Bool.false_or, decide_eq_true_eq, hy.lt_iff hx]
  split_ifs with h
  · exact ⟨h.le, le_rfl⟩
  · exact ⟨le_rfl, not_lt.1 h⟩

theorem le_greater (hx : SignFree x) (hy : SignFree y) :
    x.toBits.toNat ≤ (greater x y).toBits.toNat ∧ y.toBits.toNat ≤ (greater x y).toBits.toNat := by
  simp only [greater, hx.isNaN, Bool.false_or, decide_eq_true_eq, hx.lt_iff hy]
  split_ifs with h
  · exact ⟨h.le, le_rfl⟩
  · exact ⟨le_rfl, not_lt.1 h⟩

theorem foldl_bounds {choose : Float → Float → Float} {R : Float → Float → Prop}
    (hrefl : ∀ x, R x x) (htrans : ∀ x y z, R x y → R y z → R x z)
    (hchoice : ∀ x y, choose x y = x ∨ choose x y = y)
    (hchoose : ∀ x y, SignFree x → SignFree y → R (choose x y) x ∧ R (choose x y) y)
    (hx : SignFree x) (hxs : ∀ y ∈ xs, SignFree y) : ∀ y ∈ x :: xs, R (xs.foldl choose x) y := by
  induction xs generalizing x with
  | nil => simpa using hrefl x
  | cons z zs ih =>
    obtain ⟨hz, hzs⟩ := List.forall_mem_cons.1 hxs
    have hfree : SignFree (choose x z) := by
      rcases hchoice x z with heq | heq <;> rw [heq]
      · exact hx
      · exact hz
    obtain ⟨hleft, hright⟩ := hchoose x z hx hz
    have hrest := List.forall_mem_cons.1 (ih hfree hzs)
    intro y hy
    rw [List.foldl_cons]
    rcases List.mem_cons.1 hy with rfl | hy
    · exact htrans _ _ _ hrest.1 hleft
    rcases List.mem_cons.1 hy with rfl | hy
    · exact htrans _ _ _ hrest.1 hright
    · exact hrest.2 y hy

theorem least?_bounds (hxs : ∀ y ∈ xs, SignFree y) (h : least? xs = some x) :
    ∀ y ∈ xs, x.toBits.toNat ≤ y.toBits.toNat := by
  cases xs with
  | nil => cases h
  | cons z zs =>
    obtain ⟨hz, hzs⟩ := List.forall_mem_cons.1 hxs
    rw [← Option.some.inj h]
    exact foldl_bounds (R := fun a b => a.toBits.toNat ≤ b.toBits.toNat) (fun _ => le_rfl)
      (fun _ _ _ => le_trans) lesser_choice (fun _ _ => lesser_le) hz hzs

theorem greatest?_bounds (hxs : ∀ y ∈ xs, SignFree y) (h : greatest? xs = some x) :
    ∀ y ∈ xs, y.toBits.toNat ≤ x.toBits.toNat := by
  cases xs with
  | nil => cases h
  | cons z zs =>
    obtain ⟨hz, hzs⟩ := List.forall_mem_cons.1 hxs
    rw [← Option.some.inj h]
    exact foldl_bounds (R := fun a b => b.toBits.toNat ≤ a.toBits.toNat) (fun _ => le_rfl)
      (fun _ _ _ => ge_trans) greater_choice (fun _ _ => le_greater) hz hzs

/-! ## The order of the samples does not matter -/

theorem least?_perm (hperm : xs.Perm ys) (hxs : ∀ z ∈ xs, SignFree z) (hx : least? xs = some x)
    (hy : least? ys = some y) : x = y := by
  have hys : ∀ z ∈ ys, SignFree z := fun z hz => hxs z (hperm.mem_iff.2 hz)
  refine eq_of_bits (le_antisymm ?_ ?_)
  · exact least?_bounds hxs hx y (hperm.mem_iff.2 (least?_mem hy))
  · exact least?_bounds hys hy x (hperm.mem_iff.1 (least?_mem hx))

theorem greatest?_perm (hperm : xs.Perm ys) (hxs : ∀ z ∈ xs, SignFree z)
    (hx : greatest? xs = some x) (hy : greatest? ys = some y) : x = y := by
  have hys : ∀ z ∈ ys, SignFree z := fun z hz => hxs z (hperm.mem_iff.2 hz)
  refine eq_of_bits (le_antisymm ?_ ?_)
  · exact greatest?_bounds hys hy x (hperm.mem_iff.1 (greatest?_mem hx))
  · exact greatest?_bounds hxs hx y (hperm.mem_iff.2 (greatest?_mem hy))

end Statistics

/-! ## The samples of a capture -/

section samples

variable {lines lines' : List String} {x : Float} {t t' : ThroughputFigures}

theorem Throughput.signFree_sample {line : String} (h : sample? line = some x) : SignFree x := by
  obtain ⟨_, _, text, -, hsample, -⟩ := sample?_eq_some_iff_leftmost.1 h
  obtain ⟨_, mantissa, places, _, -, -, -, rfl⟩ := hsample
  exact signFree_ofScientific mantissa places

theorem signFree_of_mem_samples (h : x ∈ (Metrics.ofLines lines).samples) : SignFree x := by
  rw [samples_eq] at h
  obtain ⟨line, -, hsample⟩ := List.mem_filterMap.1 h
  exact Throughput.signFree_sample hsample

theorem samples_perm (hperm : lines.Perm lines') :
    (Metrics.ofLines lines).samples.Perm (Metrics.ofLines lines').samples := by
  rw [samples_eq, samples_eq]
  exact hperm.filterMap _

theorem ThroughputFigures.range_perm {samples samples' : List Float}
    (hperm : samples.Perm samples') (hsamples : ∀ x ∈ samples, SignFree x)
    (h : ofSamples? samples = some t) (h' : ofSamples? samples' = some t') :
    t'.count = t.count ∧ t'.min = t.min ∧ t'.max = t.max := by
  obtain ⟨-, hmin, hmax, -⟩ := ofSamples?_eq_some h
  obtain ⟨-, hmin', hmax', -⟩ := ofSamples?_eq_some h'
  refine ⟨?_, (Statistics.least?_perm hperm hsamples hmin hmin').symm,
    (Statistics.greatest?_perm hperm hsamples hmax hmax').symm⟩
  rw [(of_ofSamples? h).1, (of_ofSamples? h').1, hperm.length_eq]

end samples

/-- **The range that is shown bounds the samples.** If some line carries a sample, the least and the
greatest one are shown together with their number. Both are samples, and every sample lies between
them: all samples are numbers without a sign, and in the order of their bits. In any other order of
the lines the same number and the same range are shown. -/
theorem ofMetrics_range {lines : List String}
    (h : ∃ line ∈ lines, Throughput.CarriesSample line) :
    ∃ t, (Summary.ofMetrics (Metrics.ofLines lines)).throughput = some t ∧
      t.count = (Metrics.ofLines lines).samples.length ∧
      t.min ∈ (Metrics.ofLines lines).samples ∧ t.max ∈ (Metrics.ofLines lines).samples ∧
      (∀ x ∈ (Metrics.ofLines lines).samples,
        x.isNaN = false ∧ x.toBits.toNat < 2 ^ 63 ∧ t.min ≤ x ∧ x ≤ t.max) ∧
      (∀ x ∈ (Metrics.ofLines lines).samples, ∀ y ∈ (Metrics.ofLines lines).samples,
        x ≤ y ↔ x.toBits.toNat ≤ y.toBits.toNat) ∧
      ∀ lines', lines.Perm lines' → ∃ t',
        (Summary.ofMetrics (Metrics.ofLines lines')).throughput = some t' ∧
        t'.count = t.count ∧ t'.min = t.min ∧ t'.max = t.max := by
  have hfree : ∀ x ∈ (Metrics.ofLines lines).samples, SignFree x :=
    fun x hx => signFree_of_mem_samples hx
  obtain ⟨t, ht⟩ := Option.isSome_iff_exists.1 ((isSome_throughput_iff lines).2 h)
  obtain ⟨-, hmin, hmax, -⟩ := ThroughputFigures.ofSamples?_eq_some ht
  have hmin' := Statistics.least?_mem hmin
  have hmax' := Statistics.greatest?_mem hmax
  refine ⟨t, ht, (ThroughputFigures.of_ofSamples? ht).1, hmin', hmax', fun x hx => ?_,
    fun x hx y hy => (hfree x hx).le_iff (hfree y hy), fun lines' hperm => ?_⟩
  · refine ⟨(hfree x hx).isNaN, (hfree x hx).toBits_lt, ?_, ?_⟩
    · rw [(hfree _ hmin').le_iff (hfree x hx)]
      exact Statistics.least?_bounds hfree hmin x hx
    · rw [(hfree x hx).le_iff (hfree _ hmax')]
      exact Statistics.greatest?_bounds hfree hmax x hx
  · obtain ⟨line, hline, hcarries⟩ := h
    have h' : ∃ line ∈ lines', Throughput.CarriesSample line :=
      ⟨line, hperm.mem_iff.1 hline, hcarries⟩
    obtain ⟨t', ht'⟩ := Option.isSome_iff_exists.1 ((isSome_throughput_iff lines').2 h')
    exact ⟨t', ht', ThroughputFigures.range_perm (samples_perm hperm) hfree ht ht'⟩

/-- Samples that come neither in order nor alone on their lines, the least of them zero. -/
def unsortedCapture : List String :=
  ["boot (2.10 MIPS)", "idle", "(0 MIPS) (9 MIPS)", "(2.5MIPS)"]

theorem ofMetrics_range_unsorted : ∃ t t',
    (Summary.ofMetrics (Metrics.ofLines unsortedCapture)).throughput = some t ∧
    (Summary.ofMetrics (Metrics.ofLines unsortedCapture.reverse)).throughput = some t' ∧
    t.count = 3 ∧ t'.count = 3 ∧ t'.min = t.min ∧ t'.max = t.max ∧
    t.min ≤ Float.ofScientific 0 true 0 ∧ Float.ofScientific 25 true 1 ≤ t.max := by
  have hcarries : ∃ line ∈ unsortedCapture, Throughput.CarriesSample line := by decide +kernel
  obtain ⟨t, ht, hcount, -, -, hrange, -, hperm⟩ := ofMetrics_range hcarries
  obtain ⟨t', ht', hcount', hmin, hmax⟩ := hperm _ (List.reverse_perm _).symm
  have hsamples : (Metrics.ofLines unsortedCapture).samples =
      [.ofScientific 210 true 2, .ofScientific 0 true 0, .ofScientific 25 true 1] := by
    decide +kernel
  rw [hsamples] at hcount hrange
  exact ⟨t, t', ht, ht', hcount, hcount'.trans hcount, hmin, hmax, (hrange _ (by simp)).2.2.1,
    (hrange _ (by simp)).2.2.2⟩

end BenchLedger
