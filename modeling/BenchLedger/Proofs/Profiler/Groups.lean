import BenchLedger.Proofs.Profiler.Forms
import Mathlib.Data.List.Induction

/-!
# The groups of a block

Where the figures of a block come from: `ofLines?_lastLine`. Each group is read off the last line
that supplies it, whatever the other lines supply or come close to supplying. One lemma covers the
three groups, `Block.group_ofLines`; it asks only how a group of a merge depends on those of its
parts.
-/

namespace BenchLedger.Profiler

open Text

/-! ## Lines that supply a group -/

/-- Some part of a line reports cycles. -/
def SuppliesCycles (line : String) : Prop :=
  ∃ runs text, text <:+: line.toList ∧ IsCycles runs text

/-- Some part of a line reports bandwidth. -/
def SuppliesBandwidth (line : String) : Prop :=
  ∃ runs text, text <:+: line.toList ∧ IsBandwidth runs text

/-- A line names the limiting part. -/
def NamesBottleneck (line : String) : Prop :=
  "BOTTLENECK: CPU".toList <:+: line.toList ∨ "BOTTLENECK: PSRAM".toList <:+: line.toList

theorem isSome_bottleneck?_iff (line : String) :
    (bottleneck? line).isSome ↔ NamesBottleneck line := by
  rw [← not_iff_not, Option.not_isSome_iff_eq_none, bottleneck?_eq_none_iff, NamesBottleneck,
    not_or]

/-- A line that names both parts blames the processor. -/
theorem bottleneck?_eq_some_iff {line : String} {tag : Bottleneck} : bottleneck? line = some tag ↔
    (tag = .cpu ∧ "BOTTLENECK: CPU".toList <:+: line.toList) ∨
      (tag = .psram ∧ "BOTTLENECK: PSRAM".toList <:+: line.toList ∧
        ¬"BOTTLENECK: CPU".toList <:+: line.toList) := by
  rw [← occursIn_iff, ← occursIn_iff, bottleneck?]
  generalize occursIn "BOTTLENECK: CPU".toList line.toList = cpu
  generalize occursIn "BOTTLENECK: PSRAM".toList line.toList = psram
  cases cpu <;> cases psram <;> simp [eq_comm]

instance : DecidablePred SuppliesCycles := fun line =>
  decidable_of_iff _ (isSome_cycles?_iff line)

instance : DecidablePred SuppliesBandwidth := fun line =>
  decidable_of_iff _ (isSome_bandwidth?_iff line)

instance : DecidablePred NamesBottleneck := fun line =>
  decidable_of_iff _ (isSome_bottleneck?_iff line)

/-! ## The last line that supplies a group -/

section lastLine

variable {P : String → Prop} [DecidablePred P]

/-- The last of the lines that have a property. -/
def lastLine? (P : String → Prop) [DecidablePred P] (lines : List String) : Option String :=
  (lines.filter (P ·)).getLast?

theorem lastLine?_snoc_of_pos {line : String} (h : P line) (lines : List String) :
    lastLine? P (lines ++ [line]) = some line := by
  simp [lastLine?, h]

theorem lastLine?_snoc_of_neg {line : String} (h : ¬P line) (lines : List String) :
    lastLine? P (lines ++ [line]) = lastLine? P lines := by
  simp [lastLine?, h]

theorem lastLine?_eq_none_iff {lines : List String} :
    lastLine? P lines = none ↔ ∀ line ∈ lines, ¬P line := by
  rw [lastLine?, List.getLast?_eq_none_iff, List.filter_eq_nil_iff]
  simp

theorem of_lastLine? {lines : List String} {line : String} (h : lastLine? P lines = some line) :
    P line := by
  simpa using (List.mem_filter.1 (List.mem_of_getLast? h)).2

theorem isSome_bind_lastLine?_iff {γ : Type} {read : String → Option γ}
    (hread : ∀ line, (read line).isSome ↔ P line) (lines : List String) :
    ((lastLine? P lines).bind read).isSome ↔ ∃ line ∈ lines, P line := by
  cases h : lastLine? P lines with
  | none =>
    have hnone := lastLine?_eq_none_iff.1 h
    simpa using hnone
  | some last =>
    have hlast : last ∈ lines := (List.mem_filter.1 (List.mem_of_getLast? h)).1
    exact ⟨fun _ => ⟨last, hlast, of_lastLine? h⟩, fun _ => (hread last).2 (of_lastLine? h)⟩

end lastLine

namespace Block

theorem group_ofLines {γ : Type} {group : Block → Option γ} {P : String → Prop} [DecidablePred P]
    (hempty : group {} = none) (hmerge : ∀ a b, group (merge a b) = (group b).or (group a))
    (hline : ∀ line, (group (ofLine line)).isSome ↔ P line) (lines : List String) :
    group (ofLines lines) = (lastLine? P lines).bind fun line => group (ofLine line) := by
  induction lines using List.reverseRecOn with
  | nil => exact hempty
  | append_singleton lines line ih =>
    have hlast : ofLines [line] = ofLine line := empty_merge _
    rw [ofLines_append, hlast, hmerge, ih]
    by_cases hsupplies : P line
    · have hsome := (hline line).2 hsupplies
      rw [Option.or_of_isSome hsome, lastLine?_snoc_of_pos hsupplies, Option.bind_some]
    · have hnone := Option.not_isSome_iff_eq_none.1 (mt (hline line).1 hsupplies)
      rw [hnone, Option.none_or, lastLine?_snoc_of_neg hsupplies]

theorem cycles_ofLines (lines : List String) :
    (ofLines lines).cycles = (lastLine? SuppliesCycles lines).bind cycles? :=
  group_ofLines rfl (fun _ _ => Option.orElse_eq_or) isSome_cycles?_iff lines

theorem bandwidth_ofLines (lines : List String) :
    (ofLines lines).bandwidth = (lastLine? SuppliesBandwidth lines).bind bandwidth? :=
  group_ofLines rfl (fun _ _ => Option.orElse_eq_or) isSome_bandwidth?_iff lines

theorem bottleneck_ofLines (lines : List String) :
    (ofLines lines).bottleneck = (lastLine? NamesBottleneck lines).bind bottleneck? :=
  group_ofLines rfl (fun _ _ => Option.orElse_eq_or) isSome_bottleneck?_iff lines

/-! ## Blocks without a group -/

theorem isEmpty_iff {b : Block} : b.isEmpty = true ↔ b = {} := by
  obtain ⟨c, w, n⟩ := b
  simp [isEmpty, and_assoc]

theorem merge_eq_empty_iff {a b : Block} : merge a b = {} ↔ a = {} ∧ b = {} := by
  obtain ⟨c, w, n⟩ := a
  obtain ⟨c', w', n'⟩ := b
  simp only [merge, Option.orElse_eq_orElse, Option.orElse_eq_or, mk.injEq, Option.or_eq_none_iff]
  tauto

theorem ofLines?_of_empty {lines : List String} (h : ofLines lines = {}) :
    ofLines? lines = none := by
  rw [ofLines?, h]
  rfl

theorem ofLines?_of_ne {lines : List String} (h : ofLines lines ≠ {}) :
    ofLines? lines = some (ofLines lines) := by
  rw [ofLines?, if_neg (mt isEmpty_iff.1 h)]

theorem ofLines?_eq_none_iff {lines : List String} :
    ofLines? lines = none ↔ ofLines lines = {} := by
  refine ⟨fun h => ?_, ofLines?_of_empty⟩
  by_contra hne
  simp [ofLines?_of_ne hne] at h

theorem bind_ofLines? {γ : Type} {group : Block → Option γ} (hempty : group {} = none)
    (lines : List String) : (ofLines? lines).bind group = group (ofLines lines) := by
  by_cases h : ofLines lines = {}
  · rw [ofLines?_of_empty h, h, hempty]
    rfl
  · rw [ofLines?_of_ne h, Option.bind_some]

theorem ofLines?_append (xs ys : List String) :
    ofLines? (xs ++ ys) = (ofLines? xs).merge merge (ofLines? ys) := by
  by_cases hx : ofLines xs = {}
  · rw [ofLines?_of_empty hx, Option.merge_none_left, ofLines?, ofLines?, ofLines_append, hx,
      empty_merge]
  · by_cases hy : ofLines ys = {}
    · rw [ofLines?_of_empty hy, Option.merge_none_right, ofLines?, ofLines?, ofLines_append, hy,
        merge_empty]
    · have hne : ofLines (xs ++ ys) ≠ {} := by
        rw [ofLines_append, ne_eq, merge_eq_empty_iff]
        exact fun h => hx h.1
      rw [ofLines?_of_ne hx, ofLines?_of_ne hy, ofLines?_of_ne hne, Option.merge_some_some,
        ofLines_append]

end Block

/-- Whether a line supplies any group. -/
def SuppliesGroup (line : String) : Prop :=
  SuppliesCycles line ∨ SuppliesBandwidth line ∨ NamesBottleneck line

instance : DecidablePred SuppliesGroup := fun _ => inferInstanceAs (Decidable (_ ∨ _ ∨ _))

namespace Block

theorem isSome_ofLines?_iff (lines : List String) :
    (ofLines? lines).isSome ↔ ∃ line ∈ lines, SuppliesGroup line := by
  have hgroups : (ofLines? lines).isSome ↔ (ofLines lines).cycles.isSome ∨
      (ofLines lines).bandwidth.isSome ∨ (ofLines lines).bottleneck.isSome := by
    rw [← not_iff_not, Option.not_isSome_iff_eq_none, ofLines?_eq_none_iff, ← isEmpty_iff]
    simp [isEmpty, and_assoc]
  rw [hgroups, cycles_ofLines, bandwidth_ofLines, bottleneck_ofLines,
    isSome_bind_lastLine?_iff (P := SuppliesCycles) isSome_cycles?_iff,
    isSome_bind_lastLine?_iff (P := SuppliesBandwidth) isSome_bandwidth?_iff,
    isSome_bind_lastLine?_iff isSome_bottleneck?_iff]
  simp only [SuppliesGroup, and_or_left, exists_or]

/-- **Each group of a block is that of the last line that supplies it**, and there is no block if no
line supplies any. A line that names both limiting parts blames the processor. Blocks of lines that
follow one another merge group by group: the later one has its way where it has the group. -/
theorem ofLines?_lastLine :
    (∀ lines, (ofLines? lines).bind cycles = (lastLine? SuppliesCycles lines).bind cycles? ∧
      (ofLines? lines).bind bandwidth = (lastLine? SuppliesBandwidth lines).bind bandwidth? ∧
      (ofLines? lines).bind bottleneck = (lastLine? NamesBottleneck lines).bind bottleneck? ∧
      (ofLines? lines = none ↔ ∀ line ∈ lines,
        ¬SuppliesCycles line ∧ ¬SuppliesBandwidth line ∧ ¬NamesBottleneck line)) ∧
    (∀ line, ((cycles? line).isSome ↔ SuppliesCycles line) ∧
      ((bandwidth? line).isSome ↔ SuppliesBandwidth line) ∧
      ∀ tag, bottleneck? line = some tag ↔
        (tag = .cpu ∧ "BOTTLENECK: CPU".toList <:+: line.toList) ∨
          (tag = .psram ∧ "BOTTLENECK: PSRAM".toList <:+: line.toList ∧
            ¬"BOTTLENECK: CPU".toList <:+: line.toList)) ∧
    ∀ xs ys, ofLines? (xs ++ ys) = (ofLines? xs).merge
      (fun a b => ⟨b.cycles.or a.cycles, b.bandwidth.or a.bandwidth, b.bottleneck.or a.bottleneck⟩)
      (ofLines? ys) := by
  refine ⟨fun lines => ⟨?_, ?_, ?_, ?_⟩, fun line => ?_, fun xs ys => ?_⟩
  · rw [bind_ofLines? rfl, cycles_ofLines]
  · rw [bind_ofLines? rfl, bandwidth_ofLines]
  · rw [bind_ofLines? rfl, bottleneck_ofLines]
  · rw [← Option.not_isSome_iff_eq_none, isSome_ofLines?_iff]
    simp only [SuppliesGroup, not_exists, not_and, not_or]
  · exact ⟨isSome_cycles?_iff line, isSome_bandwidth?_iff line, fun tag => bottleneck?_eq_some_iff⟩
  · have hmerge : merge = fun a b => ⟨b.cycles.or a.cycles, b.bandwidth.or a.bandwidth,
        b.bottleneck.or a.bottleneck⟩ := by
      funext a b
      simp only [merge, Option.orElse_eq_orElse, Option.orElse_eq_or]
    rw [ofLines?_append, hmerge]

/-- A line that names both parts supplies bandwidth too, and a later one that breaks off takes no
group back. -/
example : ofLines? ["Cycles/instr: fetch=1 (2%) exec=3 (4%) total=5",
    "BOTTLENECK: PSRAM BOTTLENECK: CPU PSRAM bandwidth: read=6KB/s write=7KB/s total=8KB/s",
    "Cycles/instr: fetch=9 (9%)"] =
    some ⟨some ⟨1, 2, 3, 4, 5⟩, some ⟨6, 7, 8⟩, some .cpu⟩ := by decide +kernel

end Block

end BenchLedger.Profiler
