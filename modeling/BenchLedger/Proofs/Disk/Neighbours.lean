import BenchLedger.Proofs.Disk.Join
import Mathlib.Data.List.Induction
import Mathlib.Data.List.TakeWhile

/-!
# Files in one directory

`Opens t directory here` says that a path leads to the directory at `here`, in which files can be
made. However it is spelled, with slashes or dots at its end, a name that is joined to it names the
place right below `here` (`Opens.names_join`), and the directory that the joined path is in is the
same one (`Names.opens`). A file is created at such a path exactly if nothing of its name stands
there.
-/

namespace BenchLedger.Disk

open Text

namespace Path

variable {p q directory : Path} {name : Name} {front : List Name}

/-! ## The directory that a path is in -/

theorem intercalate_prefix {xs ys : List Name} (h : xs <+: ys) :
    ['/'].intercalate xs <+: ['/'].intercalate ys := by
  obtain ⟨zs, rfl⟩ := h
  by_cases hxs : xs = []
  · rw [hxs]
    exact List.nil_prefix
  by_cases hzs : zs = []
  · simp [hzs]
  · rw [intercalate_append hxs hzs, List.append_assoc]
    exact List.prefix_append _ _

theorem exists_idle (absolute : Bool) (names : List Name) : ∃ idle,
    names = dropIdle absolute names ++ idle ∧ Idle idle ∧
    ∀ last, (dropIdle absolute names).getLast? = some last → last ≠ [] := by
  have hsplit : names = (names.reverse.dropWhile fun s => s = [] ∨ s = dot).reverse ++
      (names.reverse.takeWhile fun s => s = [] ∨ s = dot).reverse := by
    rw [← List.reverse_append, List.takeWhile_append_dropWhile, List.reverse_reverse]
  have hidle : Idle (names.reverse.takeWhile fun s => s = [] ∨ s = dot).reverse := by
    intro s hs
    simpa using List.mem_takeWhile_imp (List.mem_reverse.1 hs)
  have hlast : ∀ last,
      (names.reverse.dropWhile fun s => s = [] ∨ s = dot).reverse.getLast? = some last →
        last ≠ [] := by
    intro last hmem
    rw [List.getLast?_reverse] at hmem
    have hnot := List.head?_dropWhile_not (fun s : Name => decide (s = [] ∨ s = dot)) names.reverse
    rw [hmem] at hnot
    simp only [decide_eq_false_iff_not, not_or] at hnot
    exact hnot.1
  unfold dropIdle
  generalize (names.reverse.dropWhile fun s => s = [] ∨ s = dot).reverse = kept at hsplit hlast
  generalize (names.reverse.takeWhile fun s => s = [] ∨ s = dot).reverse = idle at hsplit hidle
  cases kept with
  | cons first rest => exact ⟨idle, hsplit, hidle, hlast⟩
  | nil =>
    rw [List.nil_append] at hsplit
    subst hsplit
    dsimp only
    split_ifs with hdot
    · obtain ⟨rest, hrest⟩ := List.head?_eq_some_iff.1 hdot.2
      refine ⟨rest, hrest, fun s hs => hidle s (by simp [hrest, hs]), ?_⟩
      rintro last ⟨⟩
      exact List.cons_ne_nil _ _
    · exact ⟨names, rfl, hidle, nofun⟩

theorem isAbsolute_front {first : Name} {rest back : List Name} (h : p.isAbsolute = false)
    (hbody : p.body = first :: rest ++ back) : isAbsolute ⟨first :: rest⟩ = false := by
  rw [isAbsolute, segments_of_not_isAbsolute h, hbody] at h
  cases rest with
  | nil => exact isAbsolute_singleton first
  | cons second rest =>
    cases first with
    | nil => cases h
    | cons c cs => rfl

theorem exists_withParents (q : Path) : ∃ above, q.withParents = q :: above := by
  unfold withParents
  cases q.segments.length with
  | zero => exact ⟨[], rfl⟩
  | succ steps =>
    rw [upward]
    cases q.parent? with
    | none => exact ⟨[], rfl⟩
    | some parent => exact ⟨_, rfl⟩

/-- The directory that a path is in is spelled by the front of the path, without the idle names
before the last one. -/
theorem parent?_spells (hbody : p.body = front ++ [name]) (hname : name.IsProper) :
    ∃ q names idle, p.parent? = some q ∧ q.Spells p.isAbsolute names ∧ front = names ++ idle ∧
      Idle idle ∧ q.toChars <+: p.toChars := by
  obtain ⟨idle, hfront, hidle, hlast⟩ := exists_idle p.isAbsolute front
  have hparent := parent?_eq_some hbody hname.ne_nil hname.ne_dot
  generalize dropIdle p.isAbsolute front = names at hfront hlast hparent
  refine ⟨_, names, idle, hparent, ?_⟩
  rw [hfront] at hbody
  cases habsolute : p.isAbsolute with
  | true =>
    have hsegments : p.segments = [[]] ++ names ++ (idle ++ [name]) := by
      simp [(segments_of_isAbsolute habsolute).1, hbody]
    cases names with
    | nil =>
      refine ⟨.body [[]] rfl rfl rfl (by simp [Idle]), hfront, hidle, ?_⟩
      rw [toChars, toChars, hsegments]
      cases idle <;> exact List.prefix_append ['/'] _
    | cons first rest =>
      refine ⟨.body [] ?_ rfl (List.append_nil _).symm idle_nil, hfront, hidle,
        intercalate_prefix ?_⟩
      · simp [isEmpty, toChars]
      · rw [hsegments]
        exact List.prefix_append _ _
  | false =>
    have hsegments : p.segments = names ++ (idle ++ [name]) := by
      simp [segments_of_not_isAbsolute habsolute, hbody]
    cases names with
    | nil => exact ⟨.empty rfl rfl rfl, hfront, hidle, List.nil_prefix⟩
    | cons first rest =>
      have hrelative := isAbsolute_front habsolute (hbody.trans (List.append_assoc _ _ _))
      have hnonempty : isEmpty ⟨first :: rest⟩ = false := by
        cases hgetLast : (first :: rest).getLast? with
        | none => simp at hgetLast
        | some last => exact isEmpty_of_getLast? hgetLast (hlast last hgetLast)
      refine ⟨.body [] hnonempty hrelative ?_ idle_nil, hfront, hidle, intercalate_prefix ?_⟩
      · rw [List.append_nil]
        exact (segments_of_not_isAbsolute hrelative).symm
      · rw [hsegments]
        exact List.prefix_append _ _

end Path

namespace Tree

variable {t t' : Tree} {p q directory : Path} {here place : Location} {name : Name}
  {names front : List Name}

/-! ## Directories that open -/

/-- A path leads to a directory in which files can be made. The empty path leads to the working
directory. -/
structure Opens (t : Tree) (directory : Path) (here : Location) : Prop where
  stands : t.get? here = some .directory
  leads : t.locate directory = .ok here ∨
    directory.isEmpty = true ∧ here = t.workingDirectory

theorem isEmpty_of_admit? (h : admit? p = none) : p.isEmpty = false := by
  unfold admit? at h
  split_ifs at h with hnul hempty
  exact Bool.not_eq_true _ ▸ hempty

theorem Opens.of_made (hmade : t.makeDirectories q.withParents = (.ok (), t'))
    (hleads : t'.locate q = .ok here) (hfiles : t'.get? here ≠ some .barren) : t'.Opens q here := by
  refine ⟨?_, .inl hleads⟩
  have hempty := isEmpty_of_admit? (locate_eq_ok hleads).1
  obtain ⟨above, habove⟩ := q.exists_withParents
  rw [habove] at hmade
  have hdirectory := isDirectory_of_makeDirectories hempty hmade
  rw [isDirectory, hleads] at hdirectory
  obtain ⟨e, he, hpassed⟩ := (Option.any_eq_true _ _).1 hdirectory
  rw [he]
  cases e with
  | directory => rfl
  | barren => exact absurd he hfiles
  | file | sink | full => cases hpassed

theorem eq_of_walk_idle (h : Idle names) (hwalk : t.walk here names = .ok place) :
    place = here := by
  induction names with
  | nil =>
    cases hwalk
    rfl
  | cons name names ih =>
    rw [walk] at hwalk
    cases henter : t.enter here name with
    | error e => simp [henter] at hwalk
    | ok next =>
      have hnext : next = here := by
        unfold enter at henter
        cases hhere : t.get? here with
        | none => simp [hhere] at henter
        | some e =>
          simp only [hhere, h name List.mem_cons_self, if_true] at henter
          split_ifs at henter
          cases henter
          rfl
      rw [henter, hnext] at hwalk
      exact ih (fun other hother => h other (List.mem_cons_of_mem name hother)) hwalk

theorem walk_append_idle (h : Idle names) (hstands : t.get? place = some .directory) :
    t.walk here (front ++ names) = .ok place ↔ t.walk here front = .ok place := by
  rw [walk_append]
  cases hfront : t.walk here front with
  | error e => exact Iff.rfl
  | ok next =>
    constructor
    · intro hwalk
      rw [eq_of_walk_idle h hwalk]
    · intro hnext
      cases hnext
      exact walk_idle h hstands rfl

/-- What it takes for a path to open a directory depends only on the names that it spells. -/
theorem opens_iff (hq : q.Spells p.isAbsolute names)
    (hpath : q.isEmpty = false → admit? q = none) :
    t.Opens q here ↔ t.get? here = some .directory ∧ t.walk (t.origin p) names = .ok here := by
  have hcases : t.Opens q here ↔ t.get? here = some .directory ∧
      (t.locate q = .ok here ∨ q.isEmpty = true ∧ here = t.workingDirectory) :=
    ⟨fun h => ⟨h.stands, h.leads⟩, fun h => ⟨h.1, h.2⟩⟩
  rw [hcases]
  refine and_congr_right fun hstands => ?_
  cases hq with
  | empty hempty habsolute hnames =>
    have hlocate : t.locate q ≠ .ok here := by
      intro h
      have hadmit := (locate_eq_ok h).1
      unfold admit? at hadmit
      split_ifs at hadmit
    simp [hlocate, hempty, origin, habsolute, hnames, walk, eq_comm]
  | body idle hempty habsolute hbody hidle =>
    simp [hempty, locate, hpath hempty, origin, habsolute, hbody, walk_append_idle hidle hstands]

/-! ## Names in a directory -/

/-- A path names `name` in the directory at `here`, in which files can be made. -/
structure Names (t : Tree) (p : Path) (here : Location) (name : Name) : Prop where
  path : admit? p = none
  proper : name.IsProper
  stands : t.get? here = some .directory
  walk : ∃ front, p.body = front ++ [name] ∧ t.walk (t.origin p) front = .ok here

theorem Names.opens (h : t.Names p here name) : ∃ q, p.parent? = some q ∧ t.Opens q here := by
  obtain ⟨front, hbody, hwalk⟩ := h.walk
  obtain ⟨q, names, idle, hparent, hspells, hfront, hidle, hprefix⟩ :=
    Path.parent?_spells hbody h.proper
  rw [hfront, walk_append_idle hidle h.stands] at hwalk
  have hpath (hempty : q.isEmpty = false) := admit?_of_prefix hprefix hempty h.path
  exact ⟨q, hparent, (opens_iff hspells hpath).2 ⟨h.stands, hwalk⟩⟩

theorem Opens.names_of_parent? (h : t.Opens q here) (hparent : p.parent? = some q)
    (hbody : p.body = front ++ [name]) (hname : name.IsProper) (hpath : admit? p = none) :
    t.Names p here name := by
  obtain ⟨q', names, idle, hq', hspells, hfront, hidle, hprefix⟩ :=
    Path.parent?_spells hbody hname
  rw [hparent, Option.some.injEq] at hq'
  subst hq'
  have hpath' (hempty : q.isEmpty = false) := admit?_of_prefix hprefix hempty hpath
  obtain ⟨hstands, hwalk⟩ := (opens_iff hspells hpath').1 h
  rw [← walk_append_idle hidle hstands, ← hfront] at hwalk
  exact ⟨hpath, hname, hstands, front, hbody, hwalk⟩

theorem Opens.names_join (h : t.Opens directory here) (hname : name.IsProper)
    (hpath : admit? (directory.join ⟨[name]⟩) = none) :
    t.Names (directory.join ⟨[name]⟩) here name := by
  obtain ⟨absolute, front, hspells, hjoin⟩ := directory.exists_front_join
  obtain ⟨habsolute, hbody⟩ := hjoin name
  rw [← habsolute] at hspells
  have hdirectory : directory.isEmpty = false → admit? directory = none := by
    intro hempty
    rcases h.leads with hleads | ⟨hempty', -⟩
    · exact (locate_eq_ok hleads).1
    · rw [hempty] at hempty'
      cases hempty'
  obtain ⟨hstands, hwalk⟩ := (opens_iff hspells hdirectory).1 h
  exact ⟨hpath, hname, hstands, front, hbody, hwalk⟩

namespace Names

theorem site (h : t.Names p here name) : t.site p = .ok (.named here name false) := by
  obtain ⟨front, hbody, hwalk⟩ := h.walk
  have hreverse : p.body.reverse.dropWhile (· = []) = name :: front.reverse := by
    simp [hbody, h.proper.ne_nil]
  have hlast : p.body.getLast? ≠ some [] := by simp [hbody, h.proper.ne_nil]
  simp [Tree.site, h.path, hreverse, hwalk, h.stands, Entry.isDirectory, h.proper.ne_dot,
    h.proper.ne_dotDot, hlast]

theorem locate (h : t.Names p here name) : t.locate p =
    if isTooLong name then .error .nameTooLong
    else if (t.get? (here ++ [name])).isSome then .ok (here ++ [name])
    else .error .notFound := by
  obtain ⟨front, hbody, hwalk⟩ := h.walk
  have henter : t.enter here name =
      if isTooLong name then .error .nameTooLong
      else if (t.get? (here ++ [name])).isSome then .ok (here ++ [name])
      else .error .notFound := enter_of_isProper h.proper h.stands rfl
  simp only [Tree.locate, h.path, hbody, walk_append, hwalk, Except.bind, Tree.walk, henter]
  cases isTooLong name <;> cases (t.get? (here ++ [name])).isSome <;> rfl

theorem exists?_iff (h : t.Names p here name) :
    t.exists? p = true ↔ isTooLong name = false ∧ (t.get? (here ++ [name])).isSome := by
  rw [exists?, h.locate]
  cases isTooLong name <;> cases (t.get? (here ++ [name])).isSome <;> simp

theorem isDirectory_of_file (h : t.Names p here name)
    (hfile : ∀ e, t.get? (here ++ [name]) = some e → ∃ old, e = .file old) :
    t.isDirectory p = false := by
  rw [isDirectory, h.locate]
  cases hstands : t.get? (here ++ [name]) with
  | none => cases isTooLong name <;> rfl
  | some e =>
    obtain ⟨old, rfl⟩ := hfile e hstands
    cases isTooLong name
    · simp only [Option.isSome_some, if_true, Bool.false_eq_true, if_false, hstands]
      rfl
    · rfl

theorem createNew_of_taken (h : t.Names p here name) (content : List UInt8)
    (htaken : t.exists? p = true) :
    t.createNew p content = .error .exists := by
  obtain ⟨hlong, hsome⟩ := h.exists?_iff.1 htaken
  simp [createNew, h.site, add, hlong, hsome]

theorem createNew_of_free (h : t.Names p here name) (content : List UInt8)
    (hlong : isTooLong name = false) (hfree : t.exists? p = false) : t.get? (here ++ [name]) = none ∧
      t.createNew p content = .ok (t.put (here ++ [name]) (.file content)) := by
  have hnone : t.get? (here ++ [name]) = none := by
    by_contra hsome
    have htaken := h.exists?_iff.2 ⟨hlong, Option.isSome_iff_ne_none.2 hsome⟩
    rw [hfree] at htaken
    cases htaken
  refine ⟨hnone, ?_⟩
  simp [createNew, h.site, add, hlong, hnone, h.stands]

theorem replace_of_file (h : t.Names p here name) (content : List UInt8)
    (hlong : isTooLong name = false)
    (hfile : ∀ e, t.get? (here ++ [name]) = some e → ∃ old, e = .file old) :
    t.replace p content = .ok (t.put (here ++ [name]) (.file content)) := by
  rw [replace, h.site]
  cases hstands : t.get? (here ++ [name]) with
  | none => simp [hstands, hlong, add, h.stands]
  | some e =>
    obtain ⟨old, rfl⟩ := hfile e hstands
    simp [hstands, hlong, Entry.write, Except.map]

end Names

end Tree

end BenchLedger.Disk
