import BenchLedger.Profiler.Block
import BenchLedger.Proofs.Text.Reading
import Mathlib.Tactic.NormNum

/-!
# The forms of profiler lines

Which lines supply cycles or bandwidth, and what they say: `figures_of_form`. The forms are spelled
out here with every run of digits and of blanks that a line may have in their places; that the line
patterns read exactly these texts is `reads_cyclesPattern` and `reads_bandwidthPattern`.
-/

namespace BenchLedger.Profiler

open Text Decimal Pattern

/-! ## Forms -/

/-- The texts that report cycles, with their five runs of digits. -/
inductive IsCycles : List (List Char) → List Char → Prop
  | intro {fetch fetchPercent exec execPercent total s₁ s₂ s₃ s₄ s₅ : List Char}
      (hdigits : ∀ run ∈ [fetch, fetchPercent, exec, execPercent, total], IsDigits run)
      (hblanks : ∀ gap ∈ [s₁, s₂, s₃, s₄, s₅], IsBlanks gap) :
      IsCycles [fetch, fetchPercent, exec, execPercent, total]
        ("Cycles/instr:".toList ++ s₁ ++ "fetch=".toList ++ fetch ++ s₂ ++ "(".toList ++
          fetchPercent ++ "%)".toList ++ s₃ ++ "exec=".toList ++ exec ++ s₄ ++ "(".toList ++
          execPercent ++ "%)".toList ++ s₅ ++ "total=".toList ++ total)

/-- The texts that report bandwidth, with their three runs of digits. -/
inductive IsBandwidth : List (List Char) → List Char → Prop
  | intro {read write total s₁ s₂ s₃ : List Char}
      (hdigits : ∀ run ∈ [read, write, total], IsDigits run)
      (hblanks : ∀ gap ∈ [s₁, s₂, s₃], IsBlanks gap) :
      IsBandwidth [read, write, total]
        ("PSRAM bandwidth:".toList ++ s₁ ++ "read=".toList ++ read ++ "KB/s".toList ++ s₂ ++
          "write=".toList ++ write ++ "KB/s".toList ++ s₃ ++ "total=".toList ++ total ++
          "KB/s".toList)

theorem reads_cyclesPattern : Reads cyclesPattern = IsCycles := by
  funext runs text
  apply propext
  unfold cyclesPattern
  constructor
  · intro h
    obtain ⟨_, hfetch, rfl⟩ := reads_fixed_iff.1 h
    obtain ⟨s₁, fetch, _, _, h₁, d₁, hshare, rfl, rfl⟩ := reads_field_iff.1 hfetch
    obtain ⟨s₂, fetchPercent, _, _, h₂, d₂, hclose, rfl, rfl⟩ := reads_field_iff.1 hshare
    obtain ⟨_, hexec, rfl⟩ := reads_fixed_iff.1 hclose
    obtain ⟨s₃, exec, _, _, h₃, d₃, hshare', rfl, rfl⟩ := reads_field_iff.1 hexec
    obtain ⟨s₄, execPercent, _, _, h₄, d₄, hclose', rfl, rfl⟩ := reads_field_iff.1 hshare'
    obtain ⟨_, htotal, rfl⟩ := reads_fixed_iff.1 hclose'
    obtain ⟨s₅, total, _, _, h₅, d₅, hend, rfl, rfl⟩ := reads_field_iff.1 htotal
    obtain ⟨rfl, rfl⟩ := reads_nil_iff.1 hend
    have hform := IsCycles.intro (by simpa using ⟨d₁, d₂, d₃, d₄, d₅⟩)
      (by simpa using ⟨h₁, h₂, h₃, h₄, h₅⟩)
    simpa only [List.append_assoc, List.append_nil] using hform
  · rintro ⟨hdigits, hblanks⟩
    simp only [List.forall_mem_cons, List.not_mem_nil, false_implies, implies_true, and_true]
      at hdigits hblanks
    obtain ⟨d₁, d₂, d₃, d₄, d₅⟩ := hdigits
    obtain ⟨h₁, h₂, h₃, h₄, h₅⟩ := hblanks
    have htotal := Reads.field "total=" h₅ d₅ .nil
    have hexec := Reads.field "exec=" h₃ d₃ (.field "(" h₄ d₄ (.fixed "%)" htotal))
    have hfetch := Reads.field "fetch=" h₁ d₁ (.field "(" h₂ d₂ (.fixed "%)" hexec))
    have hreads := Reads.fixed "Cycles/instr:" hfetch
    simpa only [List.append_assoc, List.append_nil] using hreads

theorem reads_bandwidthPattern : Reads bandwidthPattern = IsBandwidth := by
  funext runs text
  apply propext
  unfold bandwidthPattern
  constructor
  · intro h
    obtain ⟨_, hread, rfl⟩ := reads_fixed_iff.1 h
    obtain ⟨s₁, read, _, _, h₁, d₁, hunit, rfl, rfl⟩ := reads_field_iff.1 hread
    obtain ⟨_, hwrite, rfl⟩ := reads_fixed_iff.1 hunit
    obtain ⟨s₂, write, _, _, h₂, d₂, hunit', rfl, rfl⟩ := reads_field_iff.1 hwrite
    obtain ⟨_, htotal, rfl⟩ := reads_fixed_iff.1 hunit'
    obtain ⟨s₃, total, _, _, h₃, d₃, hunit'', rfl, rfl⟩ := reads_field_iff.1 htotal
    obtain ⟨_, hend, rfl⟩ := reads_fixed_iff.1 hunit''
    obtain ⟨rfl, rfl⟩ := reads_nil_iff.1 hend
    have hform := IsBandwidth.intro (by simpa using ⟨d₁, d₂, d₃⟩) (by simpa using ⟨h₁, h₂, h₃⟩)
    simpa only [List.append_assoc, List.append_nil] using hform
  · rintro ⟨hdigits, hblanks⟩
    simp only [List.forall_mem_cons, List.not_mem_nil, false_implies, implies_true, and_true]
      at hdigits hblanks
    obtain ⟨d₁, d₂, d₃⟩ := hdigits
    obtain ⟨h₁, h₂, h₃⟩ := hblanks
    have htotal := Reads.field "total=" h₃ d₃ (.fixed "KB/s" .nil)
    have hwrite := Reads.field "write=" h₂ d₂ (.fixed "KB/s" htotal)
    have hread := Reads.field "read=" h₁ d₁ (.fixed "KB/s" hwrite)
    have hreads := Reads.fixed "PSRAM bandwidth:" hread
    simpa only [List.append_assoc, List.append_nil] using hreads

theorem isSeparated_cyclesPattern : isSeparated cyclesPattern = true := by decide +kernel

theorem isSeparated_bandwidthPattern : isSeparated bandwidthPattern = true := by decide +kernel

/-! ## Figures -/

def Cycles.figures (c : Cycles) : List UInt64 :=
  [c.fetch, c.fetchPercent, c.exec, c.execPercent, c.total]

def Bandwidth.figures (b : Bandwidth) : List UInt64 := [b.read, b.write, b.total]

theorem toNat_figure (run : List Char) : (figure run).toNat = min (value run) (2 ^ 64 - 1) := by
  have hlt : min (value run) (2 ^ 64 - 1) < UInt64.size := by
    have hsize : UInt64.size = 2 ^ 64 := rfl
    omega
  exact UInt64.toNat_ofNat_of_lt' hlt

/-- The values that the runs of a form stand for. -/
def capped (runs : List (List Char)) : List Nat := runs.map fun run => min (value run) (2 ^ 64 - 1)

theorem IsCycles.exists_figures {runs : List (List Char)} {text : List Char}
    (h : IsCycles runs text) : ∃ c : Cycles, c.figures.map UInt64.toNat = capped runs := by
  obtain @⟨fetch, fetchPercent, exec, execPercent, total⟩ := h
  refine ⟨⟨figure fetch, figure fetchPercent, figure exec, figure execPercent, figure total⟩, ?_⟩
  simp only [Cycles.figures, capped, List.map_cons, List.map_nil, toNat_figure]

theorem IsBandwidth.exists_figures {runs : List (List Char)} {text : List Char}
    (h : IsBandwidth runs text) : ∃ b : Bandwidth, b.figures.map UInt64.toNat = capped runs := by
  obtain @⟨read, write, total⟩ := h
  refine ⟨⟨figure read, figure write, figure total⟩, ?_⟩
  simp only [Bandwidth.figures, capped, List.map_cons, List.map_nil, toNat_figure]

theorem cycles?_eq_some_iff (line : String) (c : Cycles) : cycles? line = some c ↔
    ∃ runs, cyclesPattern.find? line.toList = some runs ∧
      c.figures.map UInt64.toNat = capped runs := by
  constructor
  · intro h
    unfold cycles? at h
    split at h
    · rename_i fetch fetchPercent exec execPercent total hfind
      cases h
      refine ⟨_, hfind, ?_⟩
      simp only [Cycles.figures, capped, List.map_cons, List.map_nil, toNat_figure]
    · cases h
  · rintro ⟨runs, hfind, hfigures⟩
    match runs with
    | [fetch, fetchPercent, exec, execPercent, total] =>
      obtain ⟨c₁, c₂, c₃, c₄, c₅⟩ := c
      simp only [Cycles.figures, capped, List.map_cons, List.map_nil, ← toNat_figure,
        List.cons.injEq, UInt64.toNat_inj, and_true] at hfigures
      obtain ⟨rfl, rfl, rfl, rfl, rfl⟩ := hfigures
      rw [cycles?, hfind]
    | [] | [_] | [_, _] | [_, _, _] | [_, _, _, _] | _ :: _ :: _ :: _ :: _ :: _ :: _ =>
      simp [Cycles.figures, capped] at hfigures

theorem bandwidth?_eq_some_iff (line : String) (b : Bandwidth) : bandwidth? line = some b ↔
    ∃ runs, bandwidthPattern.find? line.toList = some runs ∧
      b.figures.map UInt64.toNat = capped runs := by
  constructor
  · intro h
    unfold bandwidth? at h
    split at h
    · rename_i read write total hfind
      cases h
      refine ⟨_, hfind, ?_⟩
      simp only [Bandwidth.figures, capped, List.map_cons, List.map_nil, toNat_figure]
    · cases h
  · rintro ⟨runs, hfind, hfigures⟩
    match runs with
    | [read, write, total] =>
      obtain ⟨b₁, b₂, b₃⟩ := b
      simp only [Bandwidth.figures, capped, List.map_cons, List.map_nil, ← toNat_figure,
        List.cons.injEq, UInt64.toNat_inj, and_true] at hfigures
      obtain ⟨rfl, rfl, rfl⟩ := hfigures
      rw [bandwidth?, hfind]
    | [] | [_] | [_, _] | _ :: _ :: _ :: _ :: _ => simp [Bandwidth.figures, capped] at hfigures

/-! ## What lines say -/

/-- What is built from the runs of a pattern is built exactly from the lines with a part that the
pattern reads, and from the leftmost one. -/
theorem found_of_form {γ : Type} {p : Pattern} {line : String} {found : Option γ}
    {figures : γ → List UInt64} (hp : isSeparated p = true)
    (hfound : ∀ c, found = some c ↔ ∃ runs, p.find? line.toList = some runs ∧
      (figures c).map UInt64.toNat = capped runs)
    (hbuilt : ∀ runs text, Reads p runs text →
      ∃ c, (figures c).map UInt64.toNat = capped runs) :
    (found.isSome ↔ ∃ runs text, text <:+: line.toList ∧ Reads p runs text) ∧
    ∀ c, found = some c ↔ ∃ runs after, Leftmost (Reads p) line.toList runs after ∧
      EndsBefore p after ∧ (figures c).map UInt64.toNat = capped runs := by
  constructor
  · rw [← isSome_find?_iff hp]
    constructor
    · intro h
      obtain ⟨c, hc⟩ := Option.isSome_iff_exists.1 h
      obtain ⟨runs, hruns, -⟩ := (hfound c).1 hc
      exact Option.isSome_iff_exists.2 ⟨runs, hruns⟩
    · intro h
      obtain ⟨runs, hruns⟩ := Option.isSome_iff_exists.1 h
      obtain ⟨after, ⟨before, text, -, hreads, -⟩, -⟩ := (find?_eq_some_iff hp).1 hruns
      obtain ⟨c, hc⟩ := hbuilt runs text hreads
      exact Option.isSome_iff_exists.2 ⟨c, (hfound c).2 ⟨runs, hruns, hc⟩⟩
  · intro c
    rw [hfound]
    simp only [find?_eq_some_iff hp]
    constructor
    · rintro ⟨runs, ⟨after, hleft, hends⟩, hfigures⟩
      exact ⟨runs, after, hleft, hends, hfigures⟩
    · rintro ⟨runs, after, hleft, hends, hfigures⟩
      exact ⟨runs, ⟨after, hleft, hends⟩, hfigures⟩

theorem endsBefore_cyclesPattern {after : List Char} :
    EndsBefore cyclesPattern after ↔ Stops Char.isDigit after := by
  constructor
  · exact fun h => h .digits rfl
  · rintro h last ⟨⟩
    exact h

theorem endsBefore_bandwidthPattern (after : List Char) : EndsBefore bandwidthPattern after := by
  rintro last ⟨⟩
  exact stops_false after

theorem isSome_cycles?_iff (line : String) : (cycles? line).isSome ↔
    ∃ runs text, text <:+: line.toList ∧ IsCycles runs text := by
  rw [← reads_cyclesPattern]
  exact (found_of_form isSeparated_cyclesPattern (cycles?_eq_some_iff line)
    fun runs text hreads => (reads_cyclesPattern ▸ hreads : IsCycles runs text).exists_figures).1

theorem isSome_bandwidth?_iff (line : String) : (bandwidth? line).isSome ↔
    ∃ runs text, text <:+: line.toList ∧ IsBandwidth runs text := by
  rw [← reads_bandwidthPattern]
  exact (found_of_form isSeparated_bandwidthPattern (bandwidth?_eq_some_iff line)
    fun runs text hreads =>
      (reads_bandwidthPattern ▸ hreads : IsBandwidth runs text).exists_figures).1

theorem bottleneck?_eq_none_iff (line : String) : bottleneck? line = none ↔
    ¬"BOTTLENECK: CPU".toList <:+: line.toList ∧
      ¬"BOTTLENECK: PSRAM".toList <:+: line.toList := by
  rw [← occursIn_iff, ← occursIn_iff]
  unfold bottleneck?
  split_ifs with hcpu hpsram
  · exact ⟨nofun, fun h => absurd hcpu h.1⟩
  · exact ⟨nofun, fun h => absurd hpsram h.2⟩
  · exact ⟨fun _ => ⟨hcpu, hpsram⟩, fun _ => rfl⟩

/-- **A line supplies figures exactly if it has a part of their form.** It supplies cycles if some
part of it has the form of cycles; their five figures are then the runs of digits of the part that
starts leftmost, each as far as there are digits and at most the greatest number of 64 bits. The
same holds of bandwidth, where a unit follows each run. -/
theorem figures_of_form (line : String) :
    ((cycles? line).isSome ↔ ∃ runs text, text <:+: line.toList ∧ IsCycles runs text) ∧
    (∀ c, cycles? line = some c ↔ ∃ runs after, Leftmost IsCycles line.toList runs after ∧
      Stops Char.isDigit after ∧ c.figures.map UInt64.toNat = capped runs) ∧
    ((bandwidth? line).isSome ↔ ∃ runs text, text <:+: line.toList ∧ IsBandwidth runs text) ∧
    ∀ b, bandwidth? line = some b ↔ ∃ runs after, Leftmost IsBandwidth line.toList runs after ∧
      b.figures.map UInt64.toNat = capped runs := by
  obtain ⟨hcycles, hcycles'⟩ := found_of_form isSeparated_cyclesPattern (cycles?_eq_some_iff line)
    fun runs text hreads => (reads_cyclesPattern ▸ hreads : IsCycles runs text).exists_figures
  obtain ⟨hbandwidth, hbandwidth'⟩ := found_of_form isSeparated_bandwidthPattern
    (bandwidth?_eq_some_iff line)
    fun runs text hreads => (reads_bandwidthPattern ▸ hreads : IsBandwidth runs text).exists_figures
  simp only [reads_cyclesPattern, endsBefore_cyclesPattern] at hcycles hcycles'
  simp only [reads_bandwidthPattern, endsBefore_bandwidthPattern, true_and]
    at hbandwidth hbandwidth'
  exact ⟨hcycles, hcycles', hbandwidth, hbandwidth'⟩

/-- A part that breaks off does not hide a later one. -/
example : cycles? "Cycles/instr: fetch=1 (1%Cycles/instr:fetch=014(11%) exec=109 (89%)total=123." =
    some ⟨14, 11, 109, 89, 123⟩ := by decide +kernel

end BenchLedger.Profiler
