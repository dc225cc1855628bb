import BenchLedger.Proofs.Disk.Operation

/-!
# Taken paths

A path is taken if something stands where it leads, or if dots at its end make it the name of a
directory. A disk answers "exists" to the creation of a file exactly for reasons of this kind
(`Taken.of_createNew`), it creates no file at a path that is taken (`Taken.not_createNew`), and a
path that is taken stays so (`Changes.taken`).
-/

namespace BenchLedger.Disk.Tree

variable {t t' : Tree} {p : Path} {written : List Location} {content : List UInt8}

inductive Taken (t : Tree) (p : Path) : Prop
  | stands {place : Location} {e : Entry} (hleads : t.locate p = .ok place)
      (hstands : t.get? place = some e)
  | dotted (hsite : t.site p = .ok .standing)

/-! ## Walks never meet "exists" -/

theorem enter_ne_exists (t : Tree) (here : Location) (name : Name) :
    t.enter here name ≠ .error .exists := by
  intro h
  unfold enter at h
  cases hhere : t.get? here with
  | none => simp [hhere] at h
  | some e =>
    simp only [hhere] at h
    split_ifs at h <;> cases h

theorem walk_ne_exists (t : Tree) (here : Location) (names : List Name) :
    t.walk here names ≠ .error .exists := by
  induction names generalizing here with
  | nil =>
    intro h
    cases h
  | cons name names ih =>
    intro h
    rw [walk] at h
    cases henter : t.enter here name with
    | ok next =>
      rw [henter] at h
      exact ih next h
    | error cause =>
      rw [henter] at h
      cases h
      exact enter_ne_exists t here name henter

theorem site_ne_exists (t : Tree) (p : Path) : t.site p ≠ .error .exists := by
  intro h
  unfold site at h
  cases hpath : admit? p with
  | some e =>
    simp only [hpath] at h
    cases h
    unfold admit? at hpath
    split_ifs at hpath <;> cases hpath
  | none =>
    simp only [hpath] at h
    cases hbody : p.body.reverse.dropWhile (· = []) with
    | nil => simp [hbody] at h
    | cons last before =>
      simp only [hbody] at h
      cases hwalk : t.walk (t.origin p) before.reverse with
      | error cause =>
        simp only [hwalk] at h
        cases h
        exact walk_ne_exists t _ _ hwalk
      | ok parent =>
        simp only [hwalk] at h
        cases hparent : t.get? parent with
        | none => simp [hparent] at h
        | some e =>
          simp only [hparent] at h
          split_ifs at h
          cases h

/-! ## Taken paths -/

theorem Taken.of_createNew (h : t.createNew p content = .error .exists) : t.Taken p := by
  unfold createNew at h
  split at h
  · rename_i cause hsite
    cases h
    exact absurd hsite (site_ne_exists t p)
  · rename_i hsite
    exact .dotted hsite
  · rename_i parent name slashed hsite
    unfold add at h
    split_ifs at h with hslashed hlong hsome hbarren
    · cases h
    · cases h
    · rw [Bool.not_eq_true] at hslashed hlong
      subst hslashed
      obtain ⟨e, he⟩ := Option.isSome_iff_exists.1 hsome
      exact .stands (locate_of_site hsite hlong hsome) he
    · cases h

theorem Taken.not_createNew (h : t.Taken p) : t.createNew p content ≠ .ok t' := by
  intro hcreated
  obtain ⟨place, hnone, hwrote⟩ := createNew_eq_ok hcreated
  cases h with
  | stands hleads hstands =>
    have hsame := hwrote.filed.changes.locate hleads
    rw [hwrote.leads, Except.ok.injEq] at hsame
    rw [← hsame, hnone] at hstands
    cases hstands
  | dotted hsite =>
    rw [createNew, hsite] at hcreated
    cases hcreated

theorem Changes.taken (hc : t.Changes t' written) (h : t.Taken p) : t'.Taken p := by
  cases h with
  | stands hleads hstands =>
    obtain ⟨e', he', -⟩ := hc.kind _ _ hstands
    exact .stands (hc.locate hleads) he'
  | dotted hsite => exact .dotted (hc.site hsite)

end BenchLedger.Disk.Tree
