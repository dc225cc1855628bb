/-!
# Joined texts

Texts that are joined with a separator between them, cut into two parts: `intercalate_append`. The
first of them come back when the whole is split at the separator, whatever the others are:
`splitOn_intercalate_append`.
-/

namespace BenchLedger.Text

variable {α : Type}

theorem intercalate_append {sep : List α} {front rest : List (List α)} (hfront : front ≠ [])
    (hrest : rest ≠ []) :
    sep.intercalate (front ++ rest) = sep.intercalate front ++ sep ++ sep.intercalate rest := by
  induction front with
  | nil => exact absurd rfl hfront
  | cons text front ih =>
    by_cases hnil : front = []
    · rw [hnil, List.singleton_append, List.intercalate_cons_of_ne_nil hrest,
        List.intercalate_singleton]
    · have hmore : front ++ rest ≠ [] := by simp [hrest]
      rw [List.cons_append, List.intercalate_cons_of_ne_nil hmore, ih hnil,
        List.intercalate_cons_of_ne_nil hnil]
      simp only [List.append_assoc]

theorem splitOn_intercalate_append [BEq α] [LawfulBEq α] {sep : α} {front rest : List (List α)}
    (hfront : ∀ text ∈ front, sep ∉ text) (hrest : rest ≠ []) :
    ([sep].intercalate (front ++ rest)).splitOn sep =
      front ++ ([sep].intercalate rest).splitOn sep := by
  by_cases hnil : front = []
  · rw [hnil, List.nil_append, List.nil_append]
  · rw [intercalate_append hnil hrest, List.append_assoc, List.singleton_append,
      List.splitOn_append_cons_self, List.splitOn_intercalate sep hfront hnil]

end BenchLedger.Text
