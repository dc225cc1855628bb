import BenchLedger.Proofs.Capture.Emitted
import BenchLedger.Proofs.Disk.Join
import BenchLedger.Proofs.Filing

/-!
# Transcripts are read back as they were saved

A transcript holds its lines with line feeds between them and none at the end, so the last line is
read as the unfinished rest: `linesOf_content`. A transcript that is saved is a new file, and the
path that saving returns leads to it: `keep_eq_ok`.
-/

namespace BenchLedger.Transcript

open Capture Disk Text

/-! ## Contents -/

theorem content_singleton (text : String) : content [text] = Utf8.encode text.toList := by
  rw [content, List.map_singleton, List.intercalate_singleton]

theorem content_cons_cons (text other : String) (lines : List String) :
    content (text :: other :: lines) =
      Utf8.encode text.toList ++ lineFeed :: content (other :: lines) := by
  have hlineFeed : Utf8.encode ('\n' :: ['\n'].intercalate ((other :: lines).map String.toList)) =
    lineFeed :: content (other :: lines) := rfl
  rw [← hlineFeed, ← Utf8.encode_append]
  rfl

theorem content_append_lineFeed {lines : List String} (h : lines ≠ []) :
    content lines ++ [lineFeed] = terminated lines := by
  induction lines with
  | nil => exact absurd rfl h
  | cons text lines ih =>
    cases lines with
    | nil => rw [content_singleton, terminated, List.flatMap_singleton]
    | cons other lines =>
      have hrest := ih (List.cons_ne_nil other lines)
      have hterminated : terminated (text :: other :: lines) =
          Utf8.encode text.toList ++ [lineFeed] ++ terminated (other :: lines) := rfl
      rw [content_cons_cons, List.append_assoc, List.cons_append, hrest, hterminated]
      simp

theorem linesOf_content {lines : List String} (h : Emitted lines) :
    Assembler.linesOf (content lines) = lines := by
  by_cases hnil : lines = []
  · subst hnil
    rw [linesOf_eq_completeLines]
    exact completeLines_piece List.not_mem_nil []
  · rw [linesOf_eq_completeLines, content_append_lineFeed hnil,
      completeLines_terminated (emitted_iff.1 h)]

/-! ## Names -/

/-- A name of a text file. -/
def IsTextName (name : Name) : Prop := ∃ front, name = front ++ ".txt".toList

theorem IsTextName.ne {name other : Name} (h : IsTextName name) (hother : other.getLast? ≠ some 't') :
    name ≠ other := by
  rintro rfl
  obtain ⟨front, rfl⟩ := h
  have hlast : (front ++ ".txt".toList).getLast? = some 't' := by simp
  exact hother hlast

theorem IsTextName.isProper {name : Name} (h : IsTextName name) : name.IsProper :=
  ⟨h.ne (by decide), h.ne (by decide), h.ne (by decide)⟩

theorem body_of_mem_candidates {directory p : Path} {name : Name} {attempts : Nat}
    (hname : IsTextName name)
    (h : p ∈ candidates (directory.join ⟨[name]⟩) name attempts) :
    ∃ chosen, IsTextName chosen ∧ p.body.getLast? = some chosen := by
  obtain ⟨n, -, rfl⟩ := List.mem_map.1 h
  split_ifs
  · exact ⟨name, hname, Path.getLast?_body_join directory name⟩
  · exact ⟨_, ⟨_, rfl⟩, Path.getLast?_body_join _ _⟩

theorem eq_join_of_mem_candidates {directory p : Path} {last name : Name} {attempts : Nat}
    (hdirectory : directory.EndsIn last) (hname : IsTextName name)
    (h : p ∈ candidates (directory.join ⟨[name]⟩) name attempts) :
    ∃ chosen, IsTextName chosen ∧ p = directory.join ⟨[chosen]⟩ := by
  obtain ⟨n, -, rfl⟩ := List.mem_map.1 h
  split_ifs
  · exact ⟨name, hname, rfl⟩
  · have hjoin := hdirectory.withName_join (hname.ne (by decide)) (hname.ne (by decide))
    exact ⟨_, ⟨Path.stem name ++ '_' :: Decimal.digits n, by simp⟩, hjoin _⟩

/-! ## Saving -/

variable {t t' : Tree} {p : Path}

theorem createFirst_eq_ok {bytes : List UInt8} {paths : List Path}
    (h : createFirst bytes paths t = .ok p t') :
    p ∈ paths ∧ ∃ place, t.get? place = none ∧ t.Wrote t' [] p place (.file bytes) := by
  induction paths with
  | nil => cases h
  | cons first paths ih =>
    unfold createFirst at h
    split at h
    · rename_i t₁ hcreated
      cases h
      exact ⟨List.mem_cons_self, Tree.createNew_eq_ok hcreated⟩
    · obtain ⟨hmem, hwrote⟩ := ih h
      exact ⟨List.mem_cons_of_mem first hmem, hwrote⟩
    · cases h

theorem createFirst_eq_error {bytes : List UInt8} {paths : List Path} {e : FilingError}
    (h : createFirst bytes paths t = .error e t') : t' = t := by
  induction paths with
  | nil =>
    cases h
    rfl
  | cons first paths ih =>
    unfold createFirst at h
    split at h
    · cases h
    · exact ih h
    · cases h
      rfl

theorem keep_eq_ok {directory : Path} {lines : List String} {label : String} {started : Moment}
    (h : keep directory lines label started t = .ok p t') : ∃ place chosen,
      (∃ attempts, p ∈ candidates (directory.join ⟨[name label started]⟩) (name label started)
        attempts) ∧
      t.get? place = none ∧
      t.Wrote t' (directory.join ⟨[name label started]⟩).above p place (.file (content lines)) ∧
      IsTextName chosen ∧ place.getLast? = some chosen := by
  unfold keep at h
  obtain ⟨_, t₁, hready, h⟩ := bind_eq_ok h
  obtain ⟨seen, t₂, hget, h⟩ := bind_eq_ok h
  cases hget
  have hfiled := Filing.makeReady_eq_ok hready
  obtain ⟨hmem, place, hnone, hwrote⟩ := createFirst_eq_ok h
  have hname : IsTextName (name label started) := ⟨_, rfl⟩
  obtain ⟨chosen, hchosen, hlast⟩ := body_of_mem_candidates hname hmem
  have hplace := hwrote.getLast? hlast hchosen.isProper
  exact ⟨place, chosen, ⟨_, hmem⟩, hfiled.changes.none_back hnone, hwrote.after hfiled, hchosen,
    hplace⟩

theorem keep_eq_error {directory : Path} {lines : List String} {label : String} {started : Moment}
    {e : FilingError} (h : keep directory lines label started t = .error e t') :
    t.Filed t' (directory.join ⟨[name label started]⟩).above [] := by
  unfold keep at h
  rcases bind_eq_error h with hready | ⟨_, t₁, hready, h⟩
  · exact Filing.makeReady_eq_error hready
  · rcases bind_eq_error h with hget | ⟨seen, t₂, hget, h⟩
    · cases hget
    · cases hget
      rw [createFirst_eq_error h]
      exact Filing.makeReady_eq_ok hready

theorem read?_keep {directory : Path} {lines : List String} {label : String} {started : Moment}
    (hlines : Emitted lines) (h : keep directory lines label started t = .ok p t') :
    read? p t' = .ok lines := by
  obtain ⟨place, _, -, -, hwrote, -⟩ := keep_eq_ok h
  rw [read?, Tree.read, hwrote.leads]
  simp only [hwrote.stands, Except.map, linesOf_content hlines]

end BenchLedger.Transcript
