import BenchLedger.Proofs.Disk.Children
import BenchLedger.Proofs.Text.Reading
import BenchLedger.Proofs.Transcript.FirstFree

/-!
# Transcripts stay in their directory

No label leads a transcript out of the directory that it is saved in: `name_staysInside`. A name is
a single word, whatever characters the label has (`isWord_numbered`), and so a single segment of a
path. As it ends in `.txt`, it is neither of the two names that stand for directories, and its stem
is what precedes this ending (`name_eq_stem`). All paths that are tried are therefore direct children
of the directory (`isChild_attempt`), and a transcript that is saved stands right below it.
-/

namespace BenchLedger.Transcript

open Decimal Disk Text

/-! ## Names are words -/

/-- Neither a blank nor a slash of either kind. -/
def isWordChar (c : Char) : Bool := c != '/' && c != '\\' && !isBlank c

def IsWord (cs : List Char) : Prop := ∀ c ∈ cs, isWordChar c = true

instance (cs : List Char) : Decidable (IsWord cs) :=
  decidable_of_iff (cs.all isWordChar = true) List.all_eq_true

@[simp]
theorem isWord_cons {c : Char} {cs : List Char} :
    IsWord (c :: cs) ↔ isWordChar c = true ∧ IsWord cs := List.forall_mem_cons

@[simp]
theorem isWord_append {xs ys : List Char} : IsWord (xs ++ ys) ↔ IsWord xs ∧ IsWord ys :=
  List.forall_mem_append

theorem isWordChar_iff {c : Char} :
    isWordChar c = true ↔ c ≠ '/' ∧ c ≠ '\\' ∧ isBlank c = false := by
  simp [isWordChar, and_assoc]

theorem isWordChar_of_isDigit {c : Char} (h : c.isDigit = true) : isWordChar c = true := by
  rw [isWordChar_iff]
  refine ⟨?_, ?_, ?_⟩
  · rintro rfl
    cases h
  · rintro rfl
    cases h
  · by_contra hblank
    rw [isDigit_eq_false_of_isBlank (Bool.not_eq_false _ ▸ hblank)] at h
    cases h

theorem isWord_digits (n : Nat) : IsWord (digits n) :=
  fun _ hc => isWordChar_of_isDigit (isDigit_of_mem_digits hc)

@[simp]
theorem isWord_padded (width n : Nat) : IsWord (padded width n) :=
  fun _ hc => isWordChar_of_isDigit (isDigit_of_mem_padded hc)

theorem isWordChar_nameChar (c : Char) : isWordChar (nameChar c) = true := by
  unfold nameChar
  split_ifs with h
  · rfl
  · simp only [Bool.or_eq_true, beq_iff_eq, not_or, Bool.not_eq_true] at h
    exact isWordChar_iff.2 ⟨h.1.2, h.2, h.1.1⟩

theorem isWord_fileStamp (started : Moment) : IsWord started.fileStamp := by
  have hyear : IsWord (Moment.yearText started.date.year) := by
    intro c hc
    rcases Moment.mem_yearText hc with hdigit | rfl | rfl
    · exact isWordChar_of_isDigit hdigit
    · rfl
    · rfl
  have hunderscore : isWordChar '_' = true := rfl
  simp only [Moment.fileStamp, isWord_append, isWord_cons, hyear, isWord_padded, hunderscore,
    and_self]

section names

variable {label : String} {started : Moment}

theorem isWord_stem : IsWord (stem label started) := by
  refine isWord_append.2 ⟨isWord_fileStamp started, isWord_cons.2 ⟨rfl, ?_⟩⟩
  intro c hc
  obtain ⟨d, -, rfl⟩ := List.mem_map.1 hc
  exact isWordChar_nameChar d

theorem isWord_numbered (n : Nat) : IsWord (numbered label started n) := by
  refine isWord_append.2 ⟨isWord_append.2 ⟨isWord_stem, ?_⟩, by decide⟩
  split_ifs
  · exact nofun
  · exact isWord_cons.2 ⟨rfl, isWord_digits n⟩

theorem ofChars_of_isWord {cs : List Char} (h : IsWord cs) : Path.ofChars cs = ⟨[cs]⟩ := by
  have hslash : '/' ∉ cs := fun hmem => (isWordChar_iff.1 (h _ hmem)).1 rfl
  rw [Path.ofChars, List.splitOn_eq_singleton hslash]

theorem name_eq_stem : name label started = Path.stem (name label started) ++ ".txt".toList := by
  rw [stem_name]
  rfl

theorem numbered_of_pos {n : Nat} (hn : 0 < n) : numbered label started n =
    Path.stem (name label started) ++ '_' :: digits n ++ ".txt".toList := by
  rw [numbered, if_neg hn.ne', stem_name]

/-! ## Paths are direct children -/

theorem isChild_attempt (directory : Path) (n : Nat) :
    directory.IsChild (attempt directory label started n) (numbered label started n) := by
  have hproper (n : Nat) := (isTextName_numbered label started n).isProper
  unfold attempt
  split_ifs with hn
  · rw [hn]
    exact Path.isChild_join directory (hproper 0)
  · exact Path.isChild_withName directory (hproper 0) (hproper n)

theorem attempt_injective (directory : Path) :
    Function.Injective (attempt directory label started) := by
  intro m n h
  have hchild : directory.IsChild (attempt directory label started m) (numbered label started n) :=
    h ▸ isChild_attempt directory n
  exact numbered_injective ((isChild_attempt directory m).name_unique hchild)

theorem exists_child_of_keep {t t' : Tree} {directory p : Path} {lines : List String}
    (h : keep directory lines label started t = .ok p t') :
    ∃ n here, p = attempt directory label started n ∧ t'.Reaches directory here ∧
      t.get? (here ++ [numbered label started n]) = none ∧
      t.Wrote t' (directory.join ⟨[name label started]⟩).above p
        (here ++ [numbered label started n]) (.file (content lines)) := by
  obtain ⟨place, _, ⟨attempts, hmem⟩, hnone, hwrote, -⟩ := keep_eq_ok h
  rw [candidates_eq] at hmem
  obtain ⟨n, -, rfl⟩ := List.mem_map.1 hmem
  obtain ⟨here, hreaches, rfl⟩ := Tree.exists_reaches (isChild_attempt directory n)
    (isTextName_numbered label started n).isProper hwrote.leads
  exact ⟨n, here, rfl, hreaches, hnone, hwrote⟩

end names

/-- **No label leads out of the directory for transcripts.** A name has neither a slash nor a
backslash nor a blank, stands for no directory, and is its stem with the ending `.txt`. The names
that are tried are this one and then the stem with the numbers from 1; they are all different and
each is a single segment. So the paths that are tried are different direct children of the
directory. A transcript that is saved is a new file right below the place of the directory, and all
else that is new are directories. -/
theorem name_staysInside (label : String) (started : Moment) :
    (∀ c ∈ name label started, c ≠ '/' ∧ c ≠ '\\' ∧ isBlank c = false) ∧
    name label started ≠ dot ∧ name label started ≠ dotDot ∧
    name label started = Path.stem (name label started) ++ ".txt".toList ∧
    numbered label started 0 = name label started ∧
    (∀ n > 0, numbered label started n =
      Path.stem (name label started) ++ '_' :: digits n ++ ".txt".toList) ∧
    Function.Injective (numbered label started) ∧
    (∀ n, Path.ofChars (numbered label started n) = ⟨[numbered label started n]⟩) ∧
    ∀ directory : Path,
      (∀ attempts,
        (candidates (directory.join ⟨[name label started]⟩) (name label started) attempts).Nodup ∧
        ∀ n < attempts, ∃ p,
          (candidates (directory.join ⟨[name label started]⟩) (name label started) attempts)[n]? =
            some p ∧
          directory.IsChild p (numbered label started n)) ∧
      ∀ lines t p t', keep directory lines label started t = .ok p t' → ∃ n here,
        directory.IsChild p (numbered label started n) ∧ t'.Reaches directory here ∧
        (∀ there, t'.locate directory = .ok there → there = here) ∧
        t'.locate p = .ok (here ++ [numbered label started n]) ∧
        t.get? (here ++ [numbered label started n]) = none ∧
        t'.get? (here ++ [numbered label started n]) = some (.file (content lines)) ∧
        ∀ other ≠ here ++ [numbered label started n], t'.get? other = t.get? other ∨
          t.get? other = none ∧ t'.get? other = some .directory := by
  have hword : IsWord (name label started) := numbered_zero ▸ isWord_numbered 0
  have hproper : Name.IsProper (name label started) := IsTextName.isProper ⟨_, rfl⟩
  refine ⟨fun c hc => isWordChar_iff.1 (hword c hc), hproper.ne_dot, hproper.ne_dotDot,
    name_eq_stem, numbered_zero, fun n hn => numbered_of_pos hn, numbered_injective,
    fun n => ofChars_of_isWord (isWord_numbered n), fun directory => ⟨fun attempts => ?_, ?_⟩⟩
  · rw [candidates_eq]
    refine ⟨List.nodup_range.map (attempt_injective directory), fun n hn => ?_⟩
    exact ⟨_, by simp [hn], isChild_attempt directory n⟩
  · intro lines t p t' hkeep
    obtain ⟨n, here, rfl, hreaches, hnone, hwrote⟩ := exists_child_of_keep hkeep
    refine ⟨n, here, isChild_attempt directory n, hreaches,
      fun there hthere => (Tree.reaches_of_locate hthere).unique hreaches, hwrote.leads, hnone,
      hwrote.stands, fun other hother => ?_⟩
    exact hwrote.filed.changes.elsewhere other (by simpa using hother)

/-- A label that spells a way out of a directory and has the ending of a transcript. -/
def outwardLabel : String := "../..\\x.txt"

/-- What an empty tree is after a transcript was saved under this label. -/
def outwardTree : Tree where
  entries := [(["c".toList, "20261016_120000_.._.._x.txt.txt".toList], .file [0x61]),
    (["c".toList], .directory)]

theorem name_staysInside_outward :
    keep ⟨["c".toList]⟩ ["a"] outwardLabel noon ⟨[], []⟩ =
      .ok ⟨["c".toList, "20261016_120000_.._.._x.txt.txt".toList]⟩ outwardTree ∧
    outwardTree.get? ["c".toList, "20261016_120000_.._.._x.txt.txt".toList] =
      some (.file [0x61]) ∧
    Path.IsChild ⟨["c".toList]⟩ ⟨["c".toList, "20261016_120000_.._.._x.txt_1.txt".toList]⟩
      "20261016_120000_.._.._x.txt_1.txt".toList := by
  obtain ⟨-, -, -, -, -, -, -, -, hdirectory⟩ := name_staysInside outwardLabel noon
  obtain ⟨hpaths, hsaved⟩ := hdirectory ⟨["c".toList]⟩
  have hkeep : keep ⟨["c".toList]⟩ ["a"] outwardLabel noon ⟨[], []⟩ =
    .ok ⟨["c".toList, "20261016_120000_.._.._x.txt.txt".toList]⟩ outwardTree := by rfl
  have hplace : outwardTree.locate ⟨["c".toList, "20261016_120000_.._.._x.txt.txt".toList]⟩ =
    .ok ["c".toList, "20261016_120000_.._.._x.txt.txt".toList] := by decide +kernel
  obtain ⟨n, here, -, -, -, hleads, -, hstands, -⟩ := hsaved _ _ _ _ hkeep
  rw [Except.ok.inj (hleads.symm.trans hplace)] at hstands
  have hsecond : (candidates (Path.join ⟨["c".toList]⟩ ⟨[name outwardLabel noon]⟩)
      (name outwardLabel noon) 2)[1]? =
    some ⟨["c".toList, "20261016_120000_.._.._x.txt_1.txt".toList]⟩ := by decide +kernel
  have hnumbered : numbered outwardLabel noon 1 =
    "20261016_120000_.._.._x.txt_1.txt".toList := by decide +kernel
  obtain ⟨p, hp, hchild⟩ := (hpaths 2).2 1 (by decide)
  cases hsecond.symm.trans hp
  exact ⟨hkeep, hstands, hnumbered ▸ hchild⟩

end BenchLedger.Transcript
