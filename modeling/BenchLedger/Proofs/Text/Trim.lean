import BenchLedger.Text.Blank
import Mathlib.Data.List.DropRight

/-!
# Trimming

`trim_trim`: trimming twice is trimming once. `trim_append_blank`: a blank character at the end of a
text does not show in the trimmed text. `trim_eq_nil_iff`: nothing is left of a text exactly if all
of it is blank.
-/

namespace BenchLedger.Text

theorem trim_eq (cs : List Char) : trim cs = (cs.dropWhile isBlank).rdropWhile isBlank := rfl

theorem trim_append_blank (cs : List Char) {c : Char} (h : isBlank c = true) :
    trim (cs ++ [c]) = trim cs := by
  rw [trim_eq, trim_eq, List.dropWhile_append]
  split
  · rename_i hblank
    rw [List.isEmpty_iff.1 hblank]
    simp [h]
  · exact List.rdropWhile_concat_pos isBlank _ c h

theorem trim_eq_nil_iff {cs : List Char} : trim cs = [] ↔ ∀ c ∈ cs, isBlank c = true := by
  rw [trim_eq, List.rdropWhile_eq_nil_iff]
  constructor
  · intro hkept c hc
    rw [← List.takeWhile_append_dropWhile (p := isBlank) (l := cs), List.mem_append] at hc
    rcases hc with hfront | hrest
    · exact List.mem_takeWhile_imp hfront
    · exact hkept c hrest
  · exact fun h c hc => h c ((List.dropWhile_sublist _).subset hc)

theorem trim_prefix_dropWhile (cs : List Char) : trim cs <+: cs.dropWhile isBlank :=
  List.rdropWhile_prefix isBlank _

theorem mem_of_mem_trim {cs : List Char} {c : Char} (h : c ∈ trim cs) : c ∈ cs :=
  (List.dropWhile_sublist _).subset ((trim_prefix_dropWhile cs).subset h)

theorem dropWhile_trim (cs : List Char) : (trim cs).dropWhile isBlank = trim cs := by
  rw [List.dropWhile_eq_self_iff]
  intro hlen
  have hget := (trim_prefix_dropWhile cs).getElem hlen
  have hself := List.dropWhile_idempotent isBlank cs
  rw [List.dropWhile_eq_self_iff] at hself
  rw [hget]
  exact hself _

theorem trim_trim (cs : List Char) : trim (trim cs) = trim cs := by
  rw [trim_eq (trim cs), dropWhile_trim, trim_eq, List.rdropWhile_idempotent]

end BenchLedger.Text
