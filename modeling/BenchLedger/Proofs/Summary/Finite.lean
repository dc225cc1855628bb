import BenchLedger.Proofs.Floating.Magnitude
import BenchLedger.Proofs.Throughput.Samples
import BenchLedger.Summary

/-!
# Finite statistics

Which statistics are numbers and which exceed the range of floating-point numbers. A figure of the
profiler has 64 bits, so its mean is always finite (`ProfilerFigures.isFinite`). A sample may have
any number of digits: the least and the greatest are finite if all samples are, the mean if the
digits of each are not too many (`ThroughputFigures.isFinite_mean`), and the deviation, which
squares, if they are fewer yet (`ThroughputFigures.isFinite_stdev`).
-/

namespace BenchLedger

open Decimal Floating Profiler Text

namespace Statistics

variable {xs : List Float} {K : ℤ}

/-! ## Sums -/

theorem atMost_foldl {s : Float} (hs : AtMost K s) (h : ∀ x ∈ xs, AtMost (K - 53) x)
    (hK : -1022 ≤ K) (hK' : K ≤ 971) : AtMost K (xs.foldl (· + ·) s) := by
  induction xs generalizing s with
  | nil => exact hs
  | cons x xs ih =>
    rw [List.forall_mem_cons] at h
    exact ih (hs.add h.1 hK hK') h.2

theorem notNegative_foldl {s : Float} (hs : AtMost K s) (hs' : NotNegative s)
    (h : ∀ x ∈ xs, AtMost (K - 53) x ∧ NotNegative x) (hK : -1022 ≤ K) (hK' : K ≤ 971) :
    NotNegative (xs.foldl (· + ·) s) := by
  induction xs generalizing s with
  | nil => exact hs'
  | cons x xs ih =>
    rw [List.forall_mem_cons] at h
    exact ih (hs.add h.1.1 hK hK') (hs'.add hs h.1.1 h.1.2 hK) h.2

theorem atMost_negativeZero : AtMost K (-0.0) := by
  rw [AtMost, unpack_negativeZero]
  trivial

theorem atMost_sum (h : ∀ x ∈ xs, AtMost (K - 53) x) (hK : -1022 ≤ K) (hK' : K ≤ 971) :
    AtMost K (sum xs) := atMost_foldl atMost_negativeZero h hK hK'

theorem notNegative_sum (h : ∀ x ∈ xs, AtMost (K - 53) x ∧ NotNegative x) (hK : -1022 ≤ K)
    (hK' : K ≤ 971) : NotNegative (sum xs) := by
  refine notNegative_foldl atMost_negativeZero ?_ h hK hK'
  rw [NotNegative, unpack_negativeZero]
  trivial

/-! ## Means and deviations -/

theorem atMost_mean? {mean : Float} (hmean : mean? xs = some mean)
    (h : ∀ x ∈ xs, AtMost (K - 53) x) (hK : -1022 ≤ K) (hK' : K ≤ 971) : AtMost K mean := by
  obtain ⟨hne, rfl⟩ := mean?_eq_some_iff.1 hmean
  have hlength : 0 < xs.length := List.length_pos_iff.2 hne
  exact (atMost_sum h hK hK').div (oneOrMore_ofNat hlength) (by omega) hK'

theorem atMost_deviation? {deviation : Float} (hdeviation : deviation? xs = some deviation)
    (h : ∀ x ∈ xs, AtMost (K - 53) x) (hK : 0 ≤ K) (hK' : K + K + 53 ≤ 971) :
    AtMost (K + K + 53) deviation := by
  unfold deviation? at hdeviation
  split_ifs at hdeviation with hlength
  obtain ⟨mean, hmean, rfl⟩ := Option.map_eq_some_iff.1 hdeviation
  have hmeanSize : AtMost K mean := atMost_mean? hmean h (by omega) (by omega)
  have hsquares : ∀ y ∈ xs.map fun x => (x - mean) * (x - mean),
      AtMost (K + K + 53 - 53) y ∧ NotNegative y := by
    intro y hy
    obtain ⟨x, hx, rfl⟩ := List.mem_map.1 hy
    have hdifference : AtMost K (x - mean) := (h x hx).sub hmeanSize (by omega) (by omega)
    exact ⟨(hdifference.mul hdifference (by omega) (by omega)).mono (by omega),
      .square hdifference (by omega)⟩
  have hsum := atMost_sum (fun y hy => (hsquares y hy).1) (by omega) hK'
  have hsum' := notNegative_sum hsquares (by omega) hK'
  have hdivisor : OneOrMore (Float.ofNat (xs.length - 1)) := oneOrMore_ofNat (by omega)
  exact (hsum.div hdivisor (by omega) hK').sqrt (hsum'.div hsum hdivisor (by omega)) (by omega) hK'

/-! ## Ranges -/

theorem foldl_choice {choose : Float → Float → Float} (hchoose : ∀ x y, choose x y = x ∨ choose x y = y)
    (x : Float) (xs : List Float) : xs.foldl choose x ∈ x :: xs := by
  induction xs generalizing x with
  | nil => exact List.mem_singleton_self x
  | cons y xs ih =>
    have hmem := ih (choose x y)
    rcases List.mem_cons.1 hmem with heq | hlater
    · rw [List.foldl_cons, heq]
      rcases hchoose x y with hx | hy
      · simp [hx]
      · simp [hy]
    · exact List.mem_cons_of_mem _ (List.mem_cons_of_mem _ hlater)

theorem lesser_choice (x y : Float) : lesser x y = x ∨ lesser x y = y := by
  unfold lesser
  split_ifs <;> simp

theorem greater_choice (x y : Float) : greater x y = x ∨ greater x y = y := by
  unfold greater
  split_ifs <;> simp

theorem least?_mem {x : Float} (h : least? xs = some x) : x ∈ xs := by
  cases xs with
  | nil => cases h
  | cons y ys =>
    rw [← Option.some.inj h]
    exact foldl_choice lesser_choice y ys

theorem greatest?_mem {x : Float} (h : greatest? xs = some x) : x ∈ xs := by
  cases xs with
  | nil => cases h
  | cons y ys =>
    rw [← Option.some.inj h]
    exact foldl_choice greater_choice y ys

end Statistics

/-! ## Samples -/

theorem value_lt {ds : List Char} (h : ∀ c ∈ ds, c.isDigit = true) : value ds < 10 ^ ds.length := by
  induction ds using List.reverseRecOn with
  | nil => decide
  | append_singleton ds d ih =>
    have hdigit : value [d] < 10 := by
      have hd := h d (by simp)
      simp only [Char.isDigit, Bool.and_eq_true, decide_eq_true_eq] at hd
      have hcode : d.toNat ≤ 57 := UInt32.le_iff_toNat_le.1 hd.2
      change 10 * 0 + (d.toNat - 48) < 10
      omega
    have hvalue := ih fun c hc => h c (List.mem_append_left _ hc)
    rw [value_append, List.length_append, pow_add]
    simp only [List.length_singleton, pow_one]
    omega

theorem Decimal.Denotes.lt {text : List Char} {mantissa places : ℕ} (h : Denotes text mantissa places) :
    ∃ ds, IsDigits ds ∧ ds <:+: text ∧ mantissa < 10 ^ (ds.length + places) := by
  cases h with
  | whole hds => exact ⟨text, hds, List.infix_refl _, value_lt hds.2⟩
  | @pointed ds fs hds hfs =>
    refine ⟨ds, hds, (List.prefix_append _ _).isInfix, ?_⟩
    have hall : ∀ c ∈ ds ++ fs, c.isDigit = true := List.forall_mem_append.2 ⟨hds.2, hfs⟩
    rw [← value_append, ← List.length_append]
    exact value_lt hall

/-- At most `n` digits stand in a row in a line. -/
def Throughput.HasRunsUpTo (n : ℕ) (line : String) : Prop :=
  ∀ run, IsDigits run → run <:+: line.toList → run.length ≤ n

theorem Throughput.atMost_sample {line : String} {x : Float} {n k : ℕ} (hline : HasRunsUpTo n line)
    (h : sample? line = some x) (hn : 10 ^ n ≤ 2 ^ k) (hk : 64 ≤ k) (hk' : k ≤ 971) :
    AtMost k x := by
  obtain ⟨after, before, text, hsplit, hsample, -⟩ := sample?_eq_some_iff_leftmost.1 h
  obtain ⟨number, mantissa, places, gap, hdenotes, -, htext, rfl⟩ := hsample
  obtain ⟨ds, hds, hpart, hlt⟩ := hdenotes.lt
  have hinfix : number <:+: line.toList := by
    refine ⟨before ++ "(".toList, gap ++ "MIPS)".toList ++ after, ?_⟩
    rw [hsplit, htext]
    simp only [List.append_assoc]
  have hlength := hline ds hds (hpart.trans hinfix)
  refine atMost_ofScientific (hlt.trans_le ?_) hn hk hk'
  gcongr
  norm_num

/-! ## Figures -/

section figures

variable {t : ThroughputFigures} {samples : List Float} {lines : List String}

theorem ThroughputFigures.ofSamples?_eq_some (h : ofSamples? samples = some t) :
    Statistics.mean? samples = some t.mean ∧ Statistics.least? samples = some t.min ∧
      Statistics.greatest? samples = some t.max ∧ t.stdev = Statistics.deviation? samples := by
  simp only [ofSamples?, Option.bind_eq_bind, Option.bind_eq_some_iff] at h
  obtain ⟨mean, hmean, min, hmin, max, hmax, ht⟩ := h
  cases ht
  exact ⟨hmean, hmin, hmax, rfl⟩

theorem ThroughputFigures.isFinite_range (h : ofSamples? samples = some t)
    (hfinite : ∀ x ∈ samples, x.isFinite = true) : t.min.isFinite = true ∧ t.max.isFinite = true := by
  obtain ⟨-, hmin, hmax, -⟩ := ofSamples?_eq_some h
  exact ⟨hfinite _ (Statistics.least?_mem hmin), hfinite _ (Statistics.greatest?_mem hmax)⟩

/-- The mean is finite, however many the samples are, if these are small enough for a sum to absorb
each of them. -/
theorem ThroughputFigures.isFinite_mean (h : ofSamples? samples = some t)
    (hsmall : ∀ x ∈ samples, AtMost 900 x) : t.mean.isFinite = true := by
  obtain ⟨hmean, -⟩ := ofSamples?_eq_some h
  have hsamples : ∀ x ∈ samples, AtMost (971 - 53) x := fun x hx => (hsmall x hx).mono (by norm_num)
  exact (Statistics.atMost_mean? hmean hsamples (by norm_num) (by norm_num)).isFinite

theorem ThroughputFigures.isFinite_stdev {x : Float} (h : ofSamples? samples = some t)
    (hsmall : ∀ x ∈ samples, AtMost 400 x) (hx : t.stdev = some x) : x.isFinite = true := by
  obtain ⟨-, -, -, hstdev⟩ := ofSamples?_eq_some h
  have hsamples : ∀ x ∈ samples, AtMost (453 - 53) x := fun x hx => (hsmall x hx).mono (by norm_num)
  exact (Statistics.atMost_deviation? (hstdev.symm.trans hx) hsamples (by norm_num)
    (by norm_num)).isFinite

/-- The statistics of the profiler that are present are finite. -/
structure ProfilerFigures.IsFinite (p : ProfilerFigures) : Prop where
  cycles : ∀ x, p.cycles = some x → x.isFinite = true
  execPercent : ∀ x, p.execPercent = some x → x.isFinite = true
  bandwidth : ∀ x, p.bandwidth = some x → x.isFinite = true

theorem isFinite_meanOfAll? {figure : Block → Option UInt64} {blocks : List Block} {x : Float}
    (h : meanOfAll? figure blocks = some x) : x.isFinite = true := by
  simp only [meanOfAll?, Option.bind_eq_bind, Option.bind_eq_some_iff] at h
  obtain ⟨values, -, hmean⟩ := h
  have hvalues : ∀ y ∈ values.map UInt64.toFloat, AtMost (117 - 53) y := by
    intro y hy
    obtain ⟨n, -, rfl⟩ := List.mem_map.1 hy
    exact (atMost_toFloat n).mono (by norm_num)
  exact (Statistics.atMost_mean? hmean hvalues (by norm_num) (by norm_num)).isFinite

theorem ProfilerFigures.isFinite {p : ProfilerFigures} {blocks : List Block}
    (h : ofBlocks? blocks = some p) : p.IsFinite := by
  simp only [ofBlocks?, Option.bind_eq_bind, Option.bind_eq_some_iff] at h
  obtain ⟨bottleneck, -, hp⟩ := h
  cases hp
  exact ⟨fun x => isFinite_meanOfAll?, fun x => isFinite_meanOfAll?, fun x => isFinite_meanOfAll?⟩

theorem atMost_of_mem_samples {x : Float} {n k : ℕ}
    (hlines : ∀ line ∈ lines, Throughput.HasRunsUpTo n line)
    (h : x ∈ (Metrics.ofLines lines).samples) (hn : 10 ^ n ≤ 2 ^ k) (hk : 64 ≤ k) (hk' : k ≤ 971) :
    AtMost k x := by
  rw [samples_eq] at h
  obtain ⟨line, hline, hsample⟩ := List.mem_filterMap.1 h
  exact Throughput.atMost_sample (hlines line hline) hsample hn hk hk'

end figures

end BenchLedger
