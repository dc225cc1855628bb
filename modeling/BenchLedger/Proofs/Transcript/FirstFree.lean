import BenchLedger.Proofs.Disk.Neighbours
import BenchLedger.Proofs.Transcript.RoundTrip
import Mathlib.Data.List.Nodup
import Mathlib.Data.Nat.Find

/-!
# The first free name

A transcript is saved under the first name that nothing has yet: the plain one, then the same with
the numbers from 1. All these names are different (`numbered_injective`), so one of them is free
before there are more of them than entries in the tree (`exists_free`). Saving adds this one file
and, if the directory was missing, the directories on the way; nothing else changes, however many
transcripts are saved.
-/

namespace BenchLedger.Transcript

open Disk Text

/-! ## Numbered names -/

/-- The name of a transcript at the given attempt: the first one has no number. -/
def numbered (label : String) (started : Moment) (n : Nat) : Name :=
  stem label started ++ (if n = 0 then [] else '_' :: Decimal.digits n) ++ ".txt".toList

/-- The path that is tried at the given attempt. -/
def attempt (directory : Path) (label : String) (started : Moment) (n : Nat) : Path :=
  if n = 0 then directory.join ⟨[numbered label started 0]⟩
  else (directory.join ⟨[numbered label started 0]⟩).withName (numbered label started n)

section names

variable {label : String} {started : Moment}

theorem numbered_zero : numbered label started 0 = name label started := by
  simp [numbered, name]

theorem isTextName_numbered (label : String) (started : Moment) (n : Nat) :
    IsTextName (numbered label started n) := ⟨_, rfl⟩

theorem numbered_injective : Function.Injective (numbered label started) := by
  intro m n h
  have hnumber := List.append_cancel_left (List.append_cancel_right h)
  split_ifs at hnumber with hm hn hn
  · rw [hm, hn]
  · rw [List.cons.injEq] at hnumber
    rw [← Decimal.value_digits m, hnumber.2, Decimal.value_digits]

/-- The dot before the ending is the last one, so what precedes it is the stem. -/
theorem stem_name : Path.stem (name label started) = stem label started := by
  have hfront : ((name label started).reverse.dropWhile (· ≠ '.')).drop 1 =
      (stem label started).reverse := by simp [name]
  have hne : (stem label started).reverse ≠ [] := by simp [stem]
  rw [Path.stem, hfront]
  cases hstem : (stem label started).reverse with
  | nil => exact absurd hstem hne
  | cons c cs => exact (List.reverse_eq_iff.1 hstem).symm

theorem candidates_eq (directory : Path) (attempts : Nat) :
    candidates (directory.join ⟨[name label started]⟩) (name label started) attempts =
      (List.range attempts).map (attempt directory label started) := by
  refine List.map_congr_left fun n _ => ?_
  rw [attempt, numbered_zero, numbered, stem_name]
  split_ifs <;> simp

end names

/-! ## Directories for transcripts -/

/-- Transcripts can be saved in a directory: it opens at `here`, or it is missing and opens there in
the tree `t₁` in which the directory of the transcript, `q`, was made with those above it. A barren
directory takes no files. -/
inductive Usable (t : Tree) (directory : Path) (name : Name) : Tree → Location → Prop
  | present {here : Location} (hopens : t.Opens directory here) : Usable t directory name t here
  | creatable {q : Path} {t₁ : Tree} {here : Location}
      (hparent : (directory.join ⟨[name]⟩).parent? = some q) (hmissing : t.exists? q = false)
      (hmade : t.makeDirectories q.withParents = (.ok (), t₁)) (hleads : t₁.locate q = .ok here)
      (hfiles : t₁.get? here ≠ some .barren) : Usable t directory name t₁ here

section saving

variable {t t₁ t' : Tree} {directory p q : Path} {here : Location} {label : String}
  {started : Moment} {lines : List String}

theorem makeReady_of_usable {name : Name} (husable : Usable t directory name t₁ here)
    (hfile : t.isDirectory (directory.join ⟨[name]⟩) = false) (hname : name.IsProper)
    (hpath : Tree.admit? (directory.join ⟨[name]⟩) = none) :
    Filing.makeReady (directory.join ⟨[name]⟩) t = .ok () t₁ ∧
      ∃ q, (directory.join ⟨[name]⟩).parent? = some q ∧ t₁.Opens q here := by
  cases husable with
  | present hopens =>
    have hnames := hopens.names_join hname hpath
    exact ⟨Filing.makeReady_of_names hnames hfile, hnames.opens⟩
  | @creatable q t₁ here hparent hmissing hmade hleads hfiles =>
    refine ⟨?_, q, hparent, Tree.Opens.of_made hmade hleads hfiles⟩
    have hempty := Tree.isEmpty_of_admit? hpath
    have hqempty := Tree.isEmpty_of_admit? (Tree.locate_eq_ok hleads).1
    simp [Filing.makeReady, hempty, hfile, hparent, hqempty, hmissing, hmade]

theorem names_attempt (hparent : (directory.join ⟨[numbered label started 0]⟩).parent? = some q)
    (hopens : t.Opens q here) {n : Nat}
    (hpath : Tree.admit? (attempt directory label started n) = none) :
    t.Names (attempt directory label started n) here (numbered label started n) := by
  have hname := (isTextName_numbered label started n).isProper
  unfold attempt at hpath ⊢
  split_ifs at hpath ⊢ with hn
  · subst hn
    obtain ⟨absolute, front, -, hjoin⟩ := directory.exists_front_join
    exact hopens.names_of_parent? hparent (hjoin _).2 hname hpath
  · rw [Path.withName, hparent, Option.getD_some] at hpath ⊢
    exact hopens.names_join hname hpath

/-! ## The search -/

theorem createFirst_append {bytes : List UInt8} {taken rest : List Path}
    (htaken : ∀ x ∈ taken, t.createNew x bytes = .error .exists)
    (hfree : t.createNew p bytes = .ok t') :
    createFirst bytes (taken ++ p :: rest) t = .ok p t' := by
  induction taken with
  | nil => simp only [List.nil_append, createFirst, hfree]
  | cons x taken ih =>
    rw [List.forall_mem_cons] at htaken
    simp only [List.cons_append, createFirst, htaken.1]
    exact ih htaken.2

/-- There are not more names in a directory than entries in the tree. -/
theorem exists_free (t : Tree) (here : Location) (label : String) (started : Moment) :
    ∃ n ≤ t.entries.length, t.get? (here ++ [numbered label started n]) = none := by
  by_contra hall
  push Not at hall
  have hnodup : ((List.range (t.entries.length + 1)).map
      fun n => here ++ [numbered label started n]).Nodup := by
    refine List.nodup_range.map fun m n h => ?_
    exact numbered_injective (List.singleton_inj.1 (List.append_cancel_left h))
  have hsub : ((List.range (t.entries.length + 1)).map
      fun n => here ++ [numbered label started n]) ⊆ t.entries.map Prod.fst := by
    intro place hplace
    obtain ⟨n, hn, rfl⟩ := List.mem_map.1 hplace
    have hstands := hall n (Nat.lt_succ_iff.1 (List.mem_range.1 hn))
    rw [Tree.get?, if_neg (by simp), ← Option.isSome_iff_ne_none, List.lookup_isSome_iff] at hstands
    obtain ⟨entry, hentry, hkey⟩ := hstands
    exact List.mem_map.2 ⟨entry, hentry, (beq_iff_eq.1 hkey).symm⟩
  have hlength := hnodup.length_le_of_subset hsub
  simp only [List.length_map, List.length_range] at hlength
  omega

theorem isSome_of_taken (hparent : (directory.join ⟨[numbered label started 0]⟩).parent? = some q)
    (hopens : t.Opens q here) {n : Nat}
    (htaken : t.exists? (attempt directory label started n) = true) :
    (t.get? (here ++ [numbered label started n])).isSome := by
  have hpath : Tree.admit? (attempt directory label started n) = none := by
    unfold Tree.exists? at htaken
    split at htaken
    · rename_i place hleads
      exact (Tree.locate_eq_ok hleads).1
    · cases htaken
  exact ((names_attempt hparent hopens hpath).exists?_iff.1 htaken).2

theorem exists_notTaken (hparent : (directory.join ⟨[numbered label started 0]⟩).parent? = some q)
    (hopens : t.Opens q here) :
    ∃ n, t.exists? (attempt directory label started n) = false ∧ n ≤ t.entries.length := by
  obtain ⟨n, hn, hnone⟩ := exists_free t here label started
  refine ⟨n, ?_, hn⟩
  by_contra htaken
  rw [Bool.not_eq_false] at htaken
  have hsome := isSome_of_taken hparent hopens htaken
  rw [hnone] at hsome
  cases hsome

/-- The search ends at the first path that is not taken, however many more might be tried. -/
theorem exists_createFirst
    (hparent : (directory.join ⟨[numbered label started 0]⟩).parent? = some q)
    (hopens : t.Opens q here) (content : List UInt8)
    (hvalid : ∀ n, (∀ m < n, t.exists? (attempt directory label started m) = true) →
      Tree.admit? (attempt directory label started n) = none ∧
        Tree.isTooLong (numbered label started n) = false) :
    ∃ n ≤ t.entries.length,
      (∀ m < n, t.exists? (attempt directory label started m) = true) ∧
      t.exists? (attempt directory label started n) = false ∧
      t.Names (attempt directory label started n) here (numbered label started n) ∧
      t.get? (here ++ [numbered label started n]) = none ∧
      ∀ attempts > n, createFirst content
          ((List.range attempts).map (attempt directory label started)) t =
        .ok (attempt directory label started n)
          (t.put (here ++ [numbered label started n]) (.file content)) := by
  have hexists := exists_notTaken hparent hopens
  generalize hn : Nat.find hexists = n
  obtain ⟨hfree, hle⟩ := hn ▸ Nat.find_spec hexists
  have htaken (m : Nat) (hm : m < n) : t.exists? (attempt directory label started m) = true := by
    by_contra hfree
    rw [Bool.not_eq_true] at hfree
    exact Nat.find_min hexists (hn ▸ hm) ⟨hfree, by omega⟩
  obtain ⟨hpath, hlong⟩ := hvalid n htaken
  have hnames := names_attempt hparent hopens hpath
  obtain ⟨hnone, hcreated⟩ := hnames.createNew_of_free content hlong hfree
  refine ⟨n, hle, htaken, hfree, hnames, hnone, fun attempts hattempts => ?_⟩
  obtain ⟨more, rfl⟩ : ∃ more, attempts = n + (more + 1) := Nat.exists_eq_add_of_lt hattempts
  rw [List.range_add, List.range_succ_eq_map, List.map_append, List.map_cons, List.map_cons,
    Nat.add_zero]
  refine createFirst_append (fun x hx => ?_) hcreated
  obtain ⟨m, hm, rfl⟩ := List.mem_map.1 hx
  have hm := List.mem_range.1 hm
  have hbefore := (hvalid m fun k hk => htaken k (hk.trans hm)).1
  exact (names_attempt hparent hopens hbefore).createNew_of_taken content (htaken m hm)

theorem exists_keep (lines : List String)
    (husable : Usable t directory (name label started) t₁ here)
    (hfile : t.isDirectory (directory.join ⟨[name label started]⟩) = false)
    (hvalid : ∀ n, (∀ m < n, t₁.exists? (attempt directory label started m) = true) →
      Tree.admit? (attempt directory label started n) = none ∧
        Tree.isTooLong (numbered label started n) = false) :
    ∃ n ≤ t₁.entries.length,
      (∀ m < n, t₁.exists? (attempt directory label started m) = true) ∧
      t₁.exists? (attempt directory label started n) = false ∧
      ∃ place, place = here ++ [numbered label started n] ∧ t.get? place = none ∧
        ∃ t', t' = t₁.put place (.file (content lines)) ∧
          keep directory lines label started t = .ok (attempt directory label started n) t' ∧
          t.Wrote t' (directory.join ⟨[name label started]⟩).above
            (attempt directory label started n) place (.file (content lines)) := by
  have hname : Name.IsProper (name label started) := IsTextName.isProper ⟨_, rfl⟩
  have hpath : Tree.admit? (directory.join ⟨[name label started]⟩) = none := by
    rw [← numbered_zero]
    exact (hvalid 0 nofun).1
  obtain ⟨hready, q, hparent, hopens⟩ := makeReady_of_usable husable hfile hname hpath
  rw [← numbered_zero] at hparent
  obtain ⟨n, hle, htaken, hfree, hnames, hnone, hcreate⟩ :=
    exists_createFirst hparent hopens (content lines) hvalid
  have hfiled := Filing.makeReady_eq_ok hready
  have hwrote := Tree.wrote_site (e := .file (content lines)) hnames.site (hvalid n htaken).2
    (Tree.kind_of_none hnone)
  refine ⟨n, hle, htaken, hfree, _, rfl, hfiled.changes.none_back hnone, _, rfl, ?_,
    hwrote.after hfiled⟩
  have hget : (get : Filing Tree) t₁ = .ok t₁ t₁ := rfl
  unfold keep
  rw [bind_of_ok hready, bind_of_ok hget, candidates_eq]
  exact hcreate _ (by omega)

end saving

/-! ## Saving one after another -/

/-- What a tree has stays, and paths lead where they led. -/
structure Adds (t t' : Tree) : Prop where
  stays : ∀ place e, t.get? place = some e → t'.get? place = some e
  leads : ∀ p place, t.locate p = .ok place → t'.locate p = .ok place

theorem Adds.of_changes {t t' : Tree} {written : List Location} (h : t.Changes t' written)
    (hfree : ∀ place ∈ written, t.get? place = none) : Adds t t' := by
  refine ⟨fun place e he => h.kept (fun hmem => ?_) he, fun p place => h.locate⟩
  rw [hfree place hmem] at he
  cases he

theorem Adds.trans {t t' t'' : Tree} (h : Adds t t') (h' : Adds t' t'') : Adds t t'' :=
  ⟨fun place e he => h'.stays place e (h.stays place e he),
    fun p place hleads => h'.leads p place (h.leads p place hleads)⟩

/-- A transcript that is to be saved. -/
structure Save where
  directory : Path
  lines : List String
  label : String
  started : Moment

/-- Whether a transcript could not be saved and, if it was, its path. -/
abbrev Answer := Except FilingError Path

/-- Saves a transcript: the answer and the tree that it leaves. -/
def Save.make (s : Save) (t : Tree) : Answer × Tree :=
  match keep s.directory s.lines s.label s.started t with
  | .ok p t' => (.ok p, t')
  | .error e t' => (.error e, t')

/-- Saves transcripts one after another, whether or not it fails: each with its answer, and the tree
at the end. -/
def keepAll : List Save → Tree → List (Save × Answer) × Tree
  | [], t => ([], t)
  | s :: saves, t =>
    let (answer, t₁) := s.make t
    let (entries, t') := keepAll saves t₁
    ((s, answer) :: entries, t')

theorem Save.make_adds {s : Save} {t t' : Tree} {answer : Answer}
    (h : s.make t = (answer, t')) : Adds t t' ∧ ∀ p, answer = .ok p → ∃ place,
      t.get? place = none ∧ t'.locate p = .ok place ∧
        t'.get? place = some (.file (content s.lines)) := by
  rw [make] at h
  cases hkeep : keep s.directory s.lines s.label s.started t with
  | ok p t₁ =>
    simp only [hkeep] at h
    cases h
    obtain ⟨place, chosen, -, hnone, hwrote, -⟩ := keep_eq_ok hkeep
    refine ⟨.of_changes hwrote.filed.changes (by simpa using hnone), ?_⟩
    rintro p' ⟨⟩
    exact ⟨place, hnone, hwrote.leads, hwrote.stands⟩
  | error e t₁ =>
    simp only [hkeep] at h
    cases h
    exact ⟨.of_changes (keep_eq_error hkeep).changes nofun, nofun⟩

/-- What holds of transcripts that were saved one after another. -/
structure Sound (t : Tree) (entries : List (Save × Answer)) (t' : Tree) : Prop where
  adds : Adds t t'
  saved : ∀ s p, (s, .ok p) ∈ entries → ∃ place, t.get? place = none ∧ t'.locate p = .ok place ∧
    t'.get? place = some (.file (content s.lines))
  distinct : entries.Pairwise fun earlier later => ∀ p q, earlier.2 = .ok p →
    later.2 = .ok q → t'.locate p ≠ t'.locate q

theorem sound_nil (t : Tree) : Sound t [] t where
  adds := ⟨fun _ _ he => he, fun _ _ hleads => hleads⟩
  saved := nofun
  distinct := .nil

theorem Sound.cons {t t₁ t' : Tree} {s : Save} {answer : Answer} {entries : List (Save × Answer)}
    (hmake : s.make t = (answer, t₁)) (h : Sound t₁ entries t') :
    Sound t ((s, answer) :: entries) t' := by
  obtain ⟨hadds, hnew⟩ := Save.make_adds hmake
  refine ⟨hadds.trans h.adds, ?_, List.pairwise_cons.2 ⟨?_, h.distinct⟩⟩
  · intro s' p hmem
    rcases List.mem_cons.1 hmem with hfirst | hlater
    · cases hfirst
      obtain ⟨place, hnone, hleads, hstands⟩ := hnew p rfl
      exact ⟨place, hnone, h.adds.leads p place hleads, h.adds.stays place _ hstands⟩
    · obtain ⟨place, hnone, hleads, hstands⟩ := h.saved s' p hlater
      refine ⟨place, ?_, hleads, hstands⟩
      by_contra hsome
      obtain ⟨e, he⟩ := Option.ne_none_iff_exists'.1 hsome
      rw [hadds.stays place e he] at hnone
      cases hnone
  · rintro ⟨s', later⟩ hlater p q hp rfl
    obtain ⟨place, -, hleads, hstands⟩ := hnew p hp
    obtain ⟨place', hnone, hleads', -⟩ := h.saved s' q hlater
    rw [h.adds.leads p place hleads, hleads']
    rintro ⟨⟩
    rw [hnone] at hstands
    cases hstands

theorem keepAll_sound (saves : List Save) (t : Tree) :
    Sound t (keepAll saves t).1 (keepAll saves t).2 := by
  induction saves generalizing t with
  | nil => exact sound_nil t
  | cons s saves ih => exact (ih _).cons rfl

theorem keepAll_saves (saves : List Save) (t : Tree) : (keepAll saves t).1.map Prod.fst = saves := by
  induction saves generalizing t with
  | nil => rfl
  | cons s saves ih => exact congrArg (s :: ·) (ih _)

/-- **A transcript takes the first free name, and nothing else changes.** In a directory that is
there or can be made, with names that the disk admits as far as they are tried, saving succeeds at
the first path that is not taken, of which there is one before the attempts outnumber the entries of
the tree. The file there holds the lines with line feeds between them; every entry that was there
stays, and all else that is new are the directories that were missing. Of transcripts that are saved
one after another, in whatever directories and under whatever labels, the paths are different and
lead to different files, and at the end each file holds its own lines. -/
theorem keep_takes_firstFree :
    (∀ (t t₁ : Tree) (directory : Path) (here : Location) (lines : List String) (label : String)
        (started : Moment), Usable t directory (name label started) t₁ here →
      t.isDirectory (directory.join ⟨[name label started]⟩) = false →
      (∀ n, (∀ m < n, t₁.exists? (attempt directory label started m) = true) →
        Tree.admit? (attempt directory label started n) = none ∧
          Tree.isTooLong (numbered label started n) = false) →
      ∃ n t' place, keep directory lines label started t =
          .ok (attempt directory label started n) t' ∧
        n ≤ t₁.entries.length ∧
        (∀ m < n, t₁.exists? (attempt directory label started m) = true) ∧
        t₁.exists? (attempt directory label started n) = false ∧
        place = here ++ [numbered label started n] ∧
        t'.locate (attempt directory label started n) = .ok place ∧
        t'.get? place = some (.file (Utf8.encode (['\n'].intercalate (lines.map String.toList)))) ∧
        (∀ other e, t.get? other = some e → t'.get? other = some e) ∧
        ∀ other ≠ place, t'.get? other = t₁.get? other ∧
          (t.get? other = none → (t'.get? other).isSome → t'.get? other = some .directory ∧
            ∃ q ∈ (directory.join ⟨[name label started]⟩).above, t'.locate q = .ok other)) ∧
    ∀ saves t, ∃ entries t', keepAll saves t = (entries, t') ∧ entries.map Prod.fst = saves ∧
      (∀ s p, (s, .ok p) ∈ entries → ∃ place, t'.locate p = .ok place ∧ t'.get? place =
        some (.file (Utf8.encode (['\n'].intercalate (s.lines.map String.toList))))) ∧
      (entries.Pairwise fun earlier later => ∀ p q, earlier.2 = .ok p → later.2 = .ok q →
        p ≠ q ∧ t'.locate p ≠ t'.locate q) ∧
      ∀ place e, t.get? place = some e → t'.get? place = some e := by
  constructor
  · intro t t₁ directory here lines label started husable hfile hvalid
    obtain ⟨n, hle, htaken, hfree, place, hplace, hnone, t', hput, hkeep, hwrote⟩ :=
      exists_keep lines husable hfile hvalid
    refine ⟨n, t', place, hkeep, hle, htaken, hfree, hplace, hwrote.leads, hwrote.stands, ?_, ?_⟩
    · exact (Adds.of_changes hwrote.filed.changes (by simpa using hnone)).stays
    · intro other hother
      have hmem : other ∉ [place] := by simpa using hother
      refine ⟨by rw [hput, Tree.get?_put_of_ne hother], fun hbefore hafter => ?_⟩
      refine ⟨?_, hwrote.filed.made other hmem hbefore hafter⟩
      rcases hwrote.filed.changes.elsewhere other hmem with hsame | ⟨-, hmade⟩
      · rw [hsame, hbefore] at hafter
        cases hafter
      · exact hmade
  · intro saves t
    have h := keepAll_sound saves t
    refine ⟨_, _, rfl, keepAll_saves saves t, ?_, h.distinct.imp ?_, h.adds.stays⟩
    · intro s p hmem
      obtain ⟨place, -, hleads, hstands⟩ := h.saved s p hmem
      exact ⟨place, hleads, hstands⟩
    · intro earlier later hplaces p q hp hq
      have hne := hplaces p q hp hq
      exact ⟨fun hsame => hne (congrArg _ hsame), hne⟩

def noon : Moment := ⟨⟨2026, 10, 16⟩, 43200, 0⟩

/-- A tree in which a file has the plain name for the label `x` and a directory the next one. -/
def twoTaken : Tree where
  entries := [(["c".toList], .directory),
    (["c".toList, "20261016_120000_x.txt".toList], .file [0x61]),
    (["c".toList, "20261016_120000_x_1.txt".toList], .directory)]

theorem keep_takes_firstFree_third :
    (∃ t', keep ⟨["c".toList]⟩ ["a", "b"] "x" noon twoTaken =
        .ok ⟨["c".toList, "20261016_120000_x_2.txt".toList]⟩ t' ∧
      t'.get? ["c".toList, "20261016_120000_x_2.txt".toList] = some (.file [0x61, 0x0a, 0x62])) ∧
    ∃ t', keep ⟨["c".toList]⟩ [] "x" noon ⟨[], []⟩ =
        .ok ⟨["c".toList, "20261016_120000_x.txt".toList]⟩ t' ∧
      t'.get? ["c".toList, "20261016_120000_x.txt".toList] = some (.file []) := by
  constructor
  · have hfirst : ∀ m < 2, twoTaken.exists? (attempt ⟨["c".toList]⟩ "x" noon m) = true := by
      decide +kernel
    have hthird : twoTaken.exists? (attempt ⟨["c".toList]⟩ "x" noon 2) = false := by decide +kernel
    have hvalid : ∀ n ≤ 2, Tree.admit? (attempt ⟨["c".toList]⟩ "x" noon n) = none ∧
        Tree.isTooLong (numbered "x" noon n) = false := by decide +kernel
    have hbound {n : Nat} (htaken : ∀ m < n,
        twoTaken.exists? (attempt ⟨["c".toList]⟩ "x" noon m) = true) : n ≤ 2 := by
      by_contra hn
      have hlast := htaken 2 (by omega)
      rw [hthird] at hlast
      cases hlast
    obtain ⟨n, t', place, hkeep, -, htaken, hfree, rfl, -, hstands, -⟩ :=
      keep_takes_firstFree.1 twoTaken twoTaken ⟨["c".toList]⟩ ["c".toList] ["a", "b"] "x" noon
        (.present ⟨by decide +kernel, .inl (by decide +kernel)⟩) (by decide +kernel)
        fun n htaken => hvalid n (hbound htaken)
    have hn : n = 2 := by
      have hle := hbound htaken
      by_contra hne
      rw [hfirst n (by omega)] at hfree
      cases hfree
    subst hn
    exact ⟨t', hkeep, hstands⟩
  · have hmade : Tree.makeDirectories ⟨[], []⟩ (Path.withParents ⟨["c".toList]⟩) =
        (.ok (), ⟨[(["c".toList], .directory)], []⟩) := by rfl
    have hfirst : Tree.exists? ⟨[(["c".toList], .directory)], []⟩
        (attempt ⟨["c".toList]⟩ "x" noon 0) = false := by decide +kernel
    have hzero {n : Nat} (htaken : ∀ m < n, Tree.exists? ⟨[(["c".toList], .directory)], []⟩
        (attempt ⟨["c".toList]⟩ "x" noon m) = true) : n = 0 := by
      by_contra hn
      have hnone := htaken 0 (by omega)
      rw [hfirst] at hnone
      cases hnone
    obtain ⟨n, t', place, hkeep, -, htaken, -, rfl, -, hstands, -⟩ :=
      keep_takes_firstFree.1 ⟨[], []⟩ _ ⟨["c".toList]⟩ ["c".toList] [] "x" noon
        (.creatable (q := ⟨["c".toList]⟩) (by decide +kernel) (by decide +kernel) hmade
          (by decide +kernel) (by decide +kernel)) (by decide +kernel) fun n htaken => by
        rw [hzero htaken]
        decide +kernel
    rw [hzero htaken] at hkeep hstands
    exact ⟨t', hkeep, hstands⟩

/-- The number that keeps two transcripts of one label apart makes a name that another label has
without a number. -/
example : ((keepAll [⟨⟨["c".toList]⟩, ["a"], "x", noon⟩, ⟨⟨["c".toList]⟩, ["b"], "x", noon⟩,
      ⟨⟨["c".toList]⟩, ["c"], "x_1", noon⟩] ⟨[], []⟩).1.map fun entry => entry.2.toOption) =
    [some ⟨["c".toList, "20261016_120000_x.txt".toList]⟩,
      some ⟨["c".toList, "20261016_120000_x_1.txt".toList]⟩,
      some ⟨["c".toList, "20261016_120000_x_1_1.txt".toList]⟩] := by
  decide +kernel

end BenchLedger.Transcript
