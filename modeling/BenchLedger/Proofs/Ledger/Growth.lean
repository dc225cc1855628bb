import BenchLedger.Ledger.File
import BenchLedger.Proofs.Disk.Taken
import BenchLedger.Proofs.Filing

/-!
# Ledgers grow

Adding a row that succeeds puts it after everything that the ledger held, or after a header where
nothing stood, and writes no other place: `add_eq_ok`.
-/

namespace BenchLedger.Ledger

open Disk Text

/-- What stands at the place of a ledger before and after a row is added. -/
inductive Grew (row : List Char) : Option Entry → Option Entry → Prop
  | file (old : List UInt8) :
      Grew row (some (.file old)) (some (.file (old ++ Utf8.encode row)))
  | fresh : Grew row none (some (.file (Utf8.encode header.toList ++ Utf8.encode row)))
  | sink : Grew row (some .sink) (some .sink)

theorem Grew.eq_of_file {row : List Char} {old : List UInt8} {after : Option Entry}
    (h : Grew row (some (.file old)) after) :
    after = some (.file (old ++ Utf8.encode row)) := by
  cases h
  rfl

theorem Grew.ne_directory {row : List Char} {before after : Option Entry}
    (h : Grew row before after) : before ≠ some .directory := by
  rintro rfl
  cases h

theorem Grew.exists_after {row : List Char} {before after : Option Entry}
    (h : Grew row before after) : ∃ e, after = some e := by
  cases h with
  | file old => exact ⟨_, rfl⟩
  | fresh => exact ⟨_, rfl⟩
  | sink => exact ⟨_, rfl⟩

variable {t t' : Tree} {p : Path}

theorem create_eq_ok {made : Bool} (h : create p t = .ok made t') :
    (made = false ∧ t.Filed t' p.above [] ∧ t'.Taken p) ∨
    (made = true ∧ ¬t.Taken p ∧ ∃ place, t.get? place = none ∧
      t.Wrote t' p.above p place (.file (Utf8.encode header.toList))) := by
  unfold create at h
  obtain ⟨_, t₁, hready, h⟩ := bind_eq_ok h
  have hfiled := Filing.makeReady_eq_ok hready
  cases hcreated : t₁.createNew p (Utf8.encode header.toList) with
  | ok t₂ =>
    simp only [hcreated] at h
    cases h
    obtain ⟨place, hnone, hwrote⟩ := Tree.createNew_eq_ok hcreated
    have hfree : ¬t.Taken p := fun htaken =>
      (hfiled.changes.taken htaken).not_createNew hcreated
    exact .inr ⟨rfl, hfree, place, hfiled.changes.none_back hnone, hwrote.after hfiled⟩
  | error cause =>
    simp only [hcreated] at h
    split at h
    · rename_i heq
      cases heq
    · rename_i heq
      cases heq
      cases h
      exact .inl ⟨rfl, hfiled, .of_createNew hcreated⟩
    · cases h

theorem create_eq_error {e : FilingError} (h : create p t = .error e t') :
    t.Filed t' p.above [] := by
  unfold create at h
  rcases bind_eq_error h with hready | ⟨_, t₁, hready, h⟩
  · exact Filing.makeReady_eq_error hready
  · have hfiled := Filing.makeReady_eq_ok hready
    cases hcreated : t₁.createNew p (Utf8.encode header.toList) with
    | ok t₂ =>
      simp only [hcreated] at h
      cases h
    | error cause =>
      simp only [hcreated] at h
      split at h
      · cases h
      · cases h
      · cases h
        exact hfiled

theorem encode_row_isEmpty (s : Summary) (label : String) (time : Moment) :
    (Utf8.encode (row s label time)).isEmpty = false := rfl

theorem grew_of_write {added : List Char} {old e : Entry}
    (hadded : (Utf8.encode added).isEmpty = false)
    (h : Tree.Entry.write old (· ++ Utf8.encode added) (Utf8.encode added).isEmpty = .ok e) :
    Grew added (some old) (some e) := by
  rw [hadded] at h
  cases old with
  | file content =>
    cases h
    exact .file content
  | sink =>
    cases h
    exact .sink
  | full | directory | barren => cases h

/-- A row that is added ends the ledger, and only the ledger changes. -/
theorem add_eq_ok {s : Summary} {label : String} {time : Moment}
    (h : add p s label time t = .ok () t') : ∃ place,
      t'.locate p = .ok place ∧ t.Filed t' p.above [place] ∧
      Grew (row s label time) (t.get? place) (t'.get? place) := by
  unfold add at h
  obtain ⟨made, t₁, hcreate, h⟩ := bind_eq_ok h
  obtain ⟨place, old, e, hold, hwrite, hlocate, hwrote⟩ :=
    Tree.append_eq_ok (Filing.change_eq_ok h)
  have hgrew := grew_of_write (encode_row_isEmpty s label time) hwrite
  rcases create_eq_ok hcreate with ⟨-, hfiled, -⟩ | ⟨-, -, created, hnone, hcreated⟩
  · have hbefore : t.get? place = some old := by
      rw [← hold]
      refine hfiled.changes.kept_back List.not_mem_nil ?_
      rw [hold]
      rintro ⟨⟩
      cases hgrew
    have hafter := hwrote.after hfiled
    refine ⟨place, hafter.leads, hafter.filed, ?_⟩
    rw [hbefore, hafter.stands]
    exact hgrew
  · have hsame : created = place := by
      have hleads := hcreated.leads
      rw [hlocate] at hleads
      cases hleads
      rfl
    subst hsame
    rw [hcreated.stands] at hold
    cases hold
    refine ⟨created, hwrote.leads, ?_, ?_⟩
    · exact (hcreated.filed.trans hwrote.filed).mono (by simp) (by simp)
    · rw [hnone, hwrote.stands, hgrew.eq_of_file]
      exact .fresh

/-- A row that is refused leaves no new ledger: a ledger that was just made takes every row. -/
theorem add_eq_error {s : Summary} {label : String} {time : Moment} {e : FilingError}
    (h : add p s label time t = .error e t') : t.Filed t' p.above [] := by
  unfold add at h
  rcases bind_eq_error h with hcreate | ⟨made, t₁, hcreate, h⟩
  · exact create_eq_error hcreate
  · obtain ⟨rfl, cause, happend, -⟩ := Filing.change_eq_error h
    rcases create_eq_ok hcreate with ⟨-, hfiled, -⟩ | ⟨-, -, created, -, hcreated⟩
    · exact hfiled
    · obtain ⟨t₂, hadded⟩ :=
        Tree.append_file hcreated.leads hcreated.stands (Utf8.encode (row s label time))
      rw [hadded] at happend
      cases happend

end BenchLedger.Ledger
