import BenchLedger.Summary
import Mathlib.Data.List.Induction
import Mathlib.Data.List.Nodup

/-!
# The vote

Which item a vote elects: `mostFrequent?_elects`. An item is elected (`Elects`) if no other occurs
more often and each that occurs as often is first seen later. The tally of the vote holds every item
once, in the order of their first occurrences, with the number of all its occurrences: `tally_eq`.
The first entry of the greatest number is therefore the elected item.
-/

namespace BenchLedger

namespace Statistics

variable {α : Type} [BEq α] {items keys : List α} {x y : α}

/-- Of the items, `x` occurs most often, and of several such it is the one seen first. -/
structure Elects (items : List α) (x : α) : Prop where
  mem : x ∈ items
  most : ∀ y, items.count y ≤ items.count x
  first : ∀ y, y ≠ x → items.count y = items.count x → items.idxOf x < items.idxOf y

theorem Elects.unique (hx : Elects items x) (hy : Elects items y) : x = y := by
  by_contra hne
  have hcount : items.count x = items.count y := Nat.le_antisymm (hy.most x) (hx.most y)
  have hlt := hx.first y (Ne.symm hne) hcount.symm
  have hgt := hy.first x hne hcount
  omega

theorem tally_snoc (items : List α) (x : α) : tally (items ++ [x]) = addTo x (tally items) := by
  rw [tally, List.foldl_concat]
  rfl

variable [LawfulBEq α]

/-! ## First occurrences -/

theorem eraseDups_snoc_of_mem (h : x ∈ items) : (items ++ [x]).eraseDups = items.eraseDups := by
  simp [List.eraseDups_append, List.removeAll, h]

theorem eraseDups_snoc_of_notMem (h : x ∉ items) :
    (items ++ [x]).eraseDups = items.eraseDups ++ [x] := by
  simp [List.eraseDups_append, List.removeAll, h, List.eraseDups_cons]

theorem eraseDups_pairwise (items : List α) :
    items.eraseDups.Pairwise fun x y => items.idxOf x < items.idxOf y := by
  induction items using List.reverseRecOn with
  | nil => simp
  | append_singleton items last ih =>
    have hkept : items.eraseDups.Pairwise
        fun x y => (items ++ [last]).idxOf x < (items ++ [last]).idxOf y := by
      refine ih.imp_of_mem fun hx hy hlt => ?_
      rw [List.mem_eraseDups] at hx hy
      rwa [List.idxOf_append_of_mem hx, List.idxOf_append_of_mem hy]
    by_cases hlast : last ∈ items
    · rwa [eraseDups_snoc_of_mem hlast]
    · rw [eraseDups_snoc_of_notMem hlast, List.pairwise_append]
      refine ⟨hkept, List.pairwise_singleton _ _, fun x hx y hy => ?_⟩
      obtain rfl := List.mem_singleton.1 hy
      rw [List.mem_eraseDups] at hx
      rw [List.idxOf_append_of_mem hx, List.idxOf_append_of_notMem hlast]
      have hbefore := List.idxOf_lt_length_of_mem hx
      omega

theorem nodup_eraseDups (items : List α) : items.eraseDups.Nodup :=
  (eraseDups_pairwise items).imp fun hlt heq => by simp [heq] at hlt

/-! ## The tally -/

theorem addTo_of_notMem {count : α → Nat} (h : x ∉ keys) :
    addTo x (keys.map fun k => (k, count k)) = (keys.map fun k => (k, count k)) ++ [(x, 1)] := by
  induction keys with
  | nil => rfl
  | cons k keys ih =>
    rw [List.mem_cons, not_or] at h
    simp [addTo, Ne.symm h.1, ih h.2]

theorem addTo_of_mem {count count' : α → Nat} (hnodup : keys.Nodup) (h : x ∈ keys)
    (hx : count' x = count x + 1) (hne : ∀ k, k ≠ x → count' k = count k) :
    addTo x (keys.map fun k => (k, count k)) = keys.map fun k => (k, count' k) := by
  induction keys with
  | nil => cases h
  | cons k keys ih =>
    rw [List.nodup_cons] at hnodup
    simp only [List.map_cons, addTo]
    by_cases hk : k = x
    · subst hk
      have hrest : (keys.map fun j => (j, count j)) = keys.map fun j => (j, count' j) :=
        List.map_congr_left fun j hj => by rw [hne j (ne_of_mem_of_not_mem hj hnodup.1)]
      rw [if_pos (beq_self_eq_true k), hrest, hx]
    · have hmem : x ∈ keys := (List.mem_cons.1 h).resolve_left (Ne.symm hk)
      rw [if_neg (by simpa using hk), ih hnodup.2 hmem, hne k hk]

/-- A tally holds each item once, in the order of their first occurrences, and counts them all. -/
theorem tally_eq (items : List α) :
    tally items = items.eraseDups.map fun x => (x, items.count x) := by
  induction items using List.reverseRecOn with
  | nil => rfl
  | append_singleton items last ih =>
    have hcount : (items ++ [last]).count last = items.count last + 1 := by simp
    have hother : ∀ k, k ≠ last → (items ++ [last]).count k = items.count k := fun k hk => by
      simp [Ne.symm hk]
    rw [tally_snoc, ih]
    by_cases hlast : last ∈ items
    · rw [eraseDups_snoc_of_mem hlast]
      exact addTo_of_mem (nodup_eraseDups items) (List.mem_eraseDups.2 hlast) hcount hother
    · have hnew : last ∉ items.eraseDups := mt List.mem_eraseDups.1 hlast
      have hrest : (items.eraseDups.map fun k => (k, items.count k)) =
          items.eraseDups.map fun k => (k, (items ++ [last]).count k) :=
        List.map_congr_left fun k hk => by rw [hother k (ne_of_mem_of_not_mem hk hnew)]
      rw [eraseDups_snoc_of_notMem hlast, List.map_append, addTo_of_notMem hnew, hrest,
        List.map_singleton, hcount, List.count_eq_zero_of_not_mem hlast]

/-! ## The elected item -/

theorem mostFrequent?_eq (items : List α) :
    mostFrequent? items = (items.eraseDups.map items.count).max?.bind fun most =>
      items.eraseDups.find? fun x => items.count x == most := by
  have hcounts : (tally items).map Prod.snd = items.eraseDups.map items.count := by
    rw [tally_eq, List.map_map]
    rfl
  rw [mostFrequent?, hcounts, tally_eq]
  simp only [List.find?_map, Function.comp_def]
  cases (items.eraseDups.map items.count).max? with
  | none => rfl
  | some most => cases h : items.eraseDups.find? fun x => items.count x == most <;> simp [h]

theorem elects_of_mostFrequent? (h : mostFrequent? items = some x) : Elects items x := by
  rw [mostFrequent?_eq, Option.bind_eq_some_iff] at h
  obtain ⟨most, hmost, hfind⟩ := h
  obtain ⟨hx, before, after, hkeys, hbefore⟩ := List.find?_eq_some_iff_append.1 hfind
  obtain rfl : items.count x = most := by simpa using hx
  have hle : ∀ y ∈ items, items.count y ≤ items.count x := fun y hy =>
    (List.max?_eq_some_iff.1 hmost).2 _ (List.mem_map_of_mem (List.mem_eraseDups.2 hy))
  have hmem : x ∈ items := List.mem_eraseDups.1 (hkeys ▸ by simp)
  refine ⟨hmem, fun y => ?_, fun y hne hcount => ?_⟩
  · by_cases hy : y ∈ items
    · exact hle y hy
    · simp [List.count_eq_zero_of_not_mem hy]
  · -- An item that occurs as often is no earlier entry, or it would have been taken.
    have hy : y ∈ items := List.count_pos_iff.1 (hcount ▸ List.count_pos_iff.2 hmem)
    have hy' : y ∈ before ++ x :: after := hkeys ▸ List.mem_eraseDups.2 hy
    have hafter : y ∈ after := by
      rcases List.mem_append.1 hy' with hb | hb
      · simpa [hcount] using hbefore y hb
      · exact (List.mem_cons.1 hb).resolve_left hne
    have horder := eraseDups_pairwise items
    rw [hkeys, List.pairwise_append] at horder
    exact (List.pairwise_cons.1 horder.2.1).1 y hafter

theorem exists_mostFrequent? (h : items ≠ []) : ∃ x, mostFrequent? items = some x := by
  obtain ⟨first, rest, rfl⟩ := List.exists_cons_of_ne_nil h
  have hne : ((first :: rest).eraseDups.map (first :: rest).count) ≠ [] := by
    simp [List.eraseDups_cons]
  obtain ⟨most, hmost⟩ := Option.ne_none_iff_exists'.1 (mt List.max?_eq_none_iff.1 hne)
  obtain ⟨x, hx, hcount⟩ := List.mem_map.1 (List.max?_mem hmost)
  have hfound : ((first :: rest).eraseDups.find? fun x => (first :: rest).count x == most).isSome :=
    List.find?_isSome.2 ⟨x, hx, by simpa using hcount⟩
  rw [mostFrequent?_eq, hmost]
  exact Option.isSome_iff_exists.1 hfound

theorem mostFrequent?_eq_none_iff : mostFrequent? items = none ↔ items = [] := by
  refine ⟨fun h => ?_, fun h => h ▸ rfl⟩
  by_contra hne
  obtain ⟨x, hx⟩ := exists_mostFrequent? hne
  simp [h] at hx

theorem mostFrequent?_eq_some_iff : mostFrequent? items = some x ↔ Elects items x := by
  refine ⟨elects_of_mostFrequent?, fun h => ?_⟩
  obtain ⟨y, hy⟩ := exists_mostFrequent? (List.ne_nil_of_mem h.mem)
  rw [hy, h.unique (elects_of_mostFrequent? hy)]

end Statistics

open Statistics

/-! ## The bottleneck of blocks -/

/-- What a block votes for. -/
def Profiler.Block.vote (b : Profiler.Block) : Profiler.Bottleneck := b.bottleneck.getD .unknown

theorem ProfilerFigures.bottleneck_ofBlocks? (blocks : List Profiler.Block) :
    (ofBlocks? blocks).map (·.bottleneck) = mostFrequent? (blocks.map (·.vote)) := by
  have hvotes : (blocks.map fun b => b.bottleneck.getD .unknown) = blocks.map (·.vote) := rfl
  rw [ofBlocks?, hvotes]
  cases mostFrequent? (blocks.map (·.vote)) <;> rfl

theorem ProfilerFigures.ofBlocks?_eq_none_iff {blocks : List Profiler.Block} :
    ofBlocks? blocks = none ↔ blocks = [] := by
  rw [← Option.map_eq_none_iff, bottleneck_ofBlocks?, mostFrequent?_eq_none_iff,
    List.map_eq_nil_iff]

/-- **A vote elects the earliest of the most frequent items**, and fails only where there are none.
So the bottleneck of a capture is what its blocks elect, of which those without a bottleneck of
their own vote for `Unknown`. -/
theorem mostFrequent?_elects :
    (∀ {α : Type} [BEq α] [LawfulBEq α] (items : List α),
      (mostFrequent? items = none ↔ items = []) ∧
      ∀ x, mostFrequent? items = some x ↔ Elects items x) ∧
    ∀ m : Metrics, ((Summary.ofMetrics m).profiler = none ↔ m.blocks = []) ∧
      ∀ tag, (Summary.ofMetrics m).profiler.map (·.bottleneck) = some tag ↔
        Elects (m.blocks.map (·.vote)) tag := by
  refine ⟨fun items => ⟨mostFrequent?_eq_none_iff, fun x => mostFrequent?_eq_some_iff⟩,
    fun m => ⟨ProfilerFigures.ofBlocks?_eq_none_iff, fun tag => ?_⟩⟩
  have hvote := ProfilerFigures.bottleneck_ofBlocks? m.blocks
  rw [Summary.ofMetrics, hvote, mostFrequent?_eq_some_iff]

theorem mostFrequent?_elects_tie :
    Elects ["PSRAM", "CPU", "CPU", "PSRAM"] "PSRAM" ∧
    Elects [Profiler.Bottleneck.cpu, .unknown, .unknown] .unknown :=
  ⟨((mostFrequent?_elects.1 _).2 _).1 (by decide),
    ((mostFrequent?_elects.2 ⟨[], [⟨none, none, some .cpu⟩, ⟨none, some ⟨2, 1, 3⟩, none⟩,
      ⟨none, some ⟨4, 0, 4⟩, none⟩], {}⟩).2 _).1 (by decide +kernel)⟩

end BenchLedger
