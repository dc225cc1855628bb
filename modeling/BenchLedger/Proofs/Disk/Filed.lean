import BenchLedger.Proofs.Disk.Change

/-!
# What filing leaves

`Filed t t' directories written` says all that happened to a tree while something was filed in it:
at most the places `written` got another entry, and whatever else is new is a directory to which one
of the paths `directories` leads.
-/

namespace BenchLedger.Disk

/-- The paths of the directories above a path, the nearest first. -/
def Path.above (p : Path) : List Path :=
  match p.parent? with
  | none => []
  | some q => q.withParents

namespace Tree

variable {t t' t'' : Tree} {p : Path} {place here : Location} {e : Entry}

structure Filed (t t' : Tree) (directories : List Path) (written : List Location) : Prop where
  changes : Changes t t' written
  made : ∀ place, place ∉ written → t.get? place = none → (t'.get? place).isSome →
    ∃ q ∈ directories, t'.locate q = .ok place

namespace Filed

variable {directories directories' : List Path} {written written' : List Location}

protected theorem refl (t : Tree) : Filed t t [] [] := by
  refine ⟨.refl t, fun place _ hnone hsome => ?_⟩
  rw [hnone] at hsome
  cases hsome

protected theorem trans (h : Filed t t' directories written)
    (h' : Filed t' t'' directories' written') :
    Filed t t'' (directories ++ directories') (written ++ written') := by
  refine ⟨h.changes.trans h'.changes, fun place hplace hnone hsome => ?_⟩
  rw [List.mem_append, not_or] at hplace
  cases hmiddle : t'.get? place with
  | none =>
    obtain ⟨q, hq, hleads⟩ := h'.made place hplace.2 hmiddle hsome
    exact ⟨q, List.mem_append_right _ hq, hleads⟩
  | some e =>
    obtain ⟨q, hq, hleads⟩ := h.made place hplace.1 hnone (by rw [hmiddle]; rfl)
    exact ⟨q, List.mem_append_left _ hq, h'.changes.locate hleads⟩

theorem mono (h : Filed t t' directories written) (hdirectories : directories ⊆ directories')
    (hwritten : written ⊆ written') : Filed t t' directories' written' := by
  refine ⟨h.changes.mono hwritten, fun place hplace hnone hsome => ?_⟩
  obtain ⟨q, hq, hleads⟩ := h.made place (fun hmem => hplace (hwritten hmem)) hnone hsome
  exact ⟨q, hdirectories hq, hleads⟩

theorem nothing (t : Tree) (directories : List Path) : Filed t t directories [] :=
  (Filed.refl t).mono (List.nil_subset _) (List.Subset.refl _)

theorem append (h : Filed t t' directories written) (h' : Filed t' t'' directories written') :
    Filed t t'' directories (written ++ written') :=
  (h.trans h').mono (by simp) (List.Subset.refl _)

end Filed

theorem filed_put (hkind : ∀ old, t.get? place = some old → e.isDirectory = old.isDirectory) :
    Filed t (t.put place e) [] [place] := by
  refine ⟨changes_put hkind, fun other hother hnone hsome => ?_⟩
  rw [get?_put_of_ne (by simpa using hother), hnone] at hsome
  cases hsome

end Tree

end BenchLedger.Disk
