import BenchLedger.Proofs.Disk.Neighbours

/-!
# Directly below a directory

A path is that of a direct child of a directory if its names are those of the directory and then one
more: `Path.IsChild`. Names that are empty or a dot lead nowhere and do not count, so this does not
depend on how the directory is spelled. In every tree such a path leads, if anywhere, right below the
place that the names of the directory lead to (`Tree.exists_reaches`).
-/

namespace BenchLedger.Disk

open Text

namespace Path

variable {p q directory : Path} {name other : Name} {front : List Name} {absolute : Bool}

/-- The names among segments that lead somewhere. -/
def leading (segments : List Name) : List Name := segments.filter fun s => s ≠ [] ∧ s ≠ dot

/-- The names on a path. -/
def names (p : Path) : List Name := leading p.body

theorem leading_append (xs ys : List Name) : leading (xs ++ ys) = leading xs ++ leading ys :=
  List.filter_append ..

theorem leading_of_idle {idle : List Name} (h : Idle idle) : leading idle = [] := by
  rw [leading, List.filter_eq_nil_iff]
  intro s hs
  rcases h s hs with rfl | rfl <;> simp

theorem leading_of_isProper (h : name.IsProper) : leading [name] = [name] := by
  simp [leading, h.ne_nil, h.ne_dot]

/-- A path has the names of its directory and then its own. -/
structure IsChild (directory p : Path) (name : Name) : Prop where
  isAbsolute : p.isAbsolute = directory.isAbsolute
  names : p.names = directory.names ++ [name]

theorem IsChild.name_unique (h : directory.IsChild p name) (h' : directory.IsChild p other) :
    name = other := by
  have hnames := h.names.symm.trans h'.names
  exact List.singleton_inj.1 (List.append_cancel_left hnames)

theorem names_of_isEmpty (h : p.isEmpty = true) : p.isAbsolute = false ∧ p.names = [] := by
  obtain ⟨segments⟩ := p
  match segments with
  | [] => exact ⟨rfl, rfl⟩
  | [[]] => exact ⟨rfl, rfl⟩
  | [_ :: _] => cases h
  | first :: second :: rest => simp [isEmpty, toChars] at h

theorem Spells.names (h : q.Spells absolute front) :
    q.isAbsolute = absolute ∧ q.names = leading front := by
  cases h with
  | empty hempty habsolute hfront =>
    obtain ⟨hrelative, hnames⟩ := names_of_isEmpty hempty
    rw [hrelative, hnames, habsolute, hfront]
    exact ⟨rfl, rfl⟩
  | body idle hempty habsolute hbody hidle =>
    rw [Path.names, hbody, leading_append, leading_of_idle hidle, List.append_nil]
    exact ⟨habsolute, rfl⟩

theorem isChild_join (directory : Path) (hname : name.IsProper) :
    directory.IsChild (directory.join ⟨[name]⟩) name := by
  obtain ⟨absolute, front, hspells, hjoin⟩ := directory.exists_front_join
  obtain ⟨habsolute, hbody⟩ := hjoin name
  obtain ⟨habsolute', hnames⟩ := hspells.names
  refine ⟨habsolute.trans habsolute'.symm, ?_⟩
  rw [Path.names, hbody, leading_append, leading_of_isProper hname, hnames]

theorem isChild_withName (directory : Path) (hname : name.IsProper) (hother : other.IsProper) :
    directory.IsChild ((directory.join ⟨[name]⟩).withName other) other := by
  obtain ⟨absolute, front, hspells, hjoin⟩ := directory.exists_front_join
  obtain ⟨habsolute, hbody⟩ := hjoin name
  obtain ⟨hdirectory, hnames⟩ := hspells.names
  obtain ⟨q, names, idle, hparent, hspells', hfront, hidle, -⟩ := parent?_spells hbody hname
  obtain ⟨hparentAbsolute, hparentNames⟩ := hspells'.names
  have hchild := isChild_join q hother
  rw [withName, hparent, Option.getD_some]
  refine ⟨?_, ?_⟩
  · rw [hchild.isAbsolute, hparentAbsolute, habsolute, hdirectory]
  · rw [hchild.names, hparentNames, hnames, hfront, leading_append, leading_of_idle hidle,
      List.append_nil]

end Path

namespace Tree

variable {t : Tree} {p directory : Path} {name : Name} {here place : Location} {segments : List Name}

/-- The names on a path lead to a place. -/
def Reaches (t : Tree) (p : Path) (place : Location) : Prop :=
  t.walk (t.origin p) p.names = .ok place

theorem Reaches.unique {place' : Location} (h : t.Reaches p place) (h' : t.Reaches p place') :
    place = place' := Except.ok.inj (h.symm.trans h')

theorem walk_leading (h : t.walk here segments = .ok place) :
    t.walk here (Path.leading segments) = .ok place := by
  induction segments generalizing here with
  | nil => exact h
  | cons s segments ih =>
    have hsplit := h
    rw [← List.singleton_append, walk_append] at hsplit
    by_cases hidle : s = [] ∨ s = dot
    · cases hfirst : t.walk here [s] with
      | error e => simp [hfirst, Except.bind] at hsplit
      | ok next =>
        have hstays : next = here := eq_of_walk_idle (by simpa [Idle] using hidle) hfirst
        rw [hfirst, hstays] at hsplit
        have hskip : Path.leading (s :: segments) = Path.leading segments := by
          rw [← List.singleton_append, Path.leading_append,
            Path.leading_of_idle (by simpa [Idle] using hidle), List.nil_append]
        rw [hskip]
        exact ih hsplit
    · have hkeep : Path.leading (s :: segments) = s :: Path.leading segments := by
        rw [not_or] at hidle
        simp [Path.leading, hidle]
      rw [walk] at h
      rw [hkeep, walk]
      cases henter : t.enter here s with
      | error e => simp [henter] at h
      | ok next =>
        rw [henter] at h
        exact ih h

theorem reaches_of_locate (h : t.locate p = .ok place) : t.Reaches p place :=
  walk_leading (locate_eq_ok h).2

/-- A path directly below a directory leads right below the place of the directory. -/
theorem exists_reaches (hchild : directory.IsChild p name) (hname : name.IsProper)
    (h : t.locate p = .ok place) : ∃ here, t.Reaches directory here ∧ place = here ++ [name] := by
  have hreaches := reaches_of_locate h
  rw [Reaches, hchild.names, origin, hchild.isAbsolute] at hreaches
  obtain ⟨here, hhere, henter⟩ := walk_snoc hreaches
  exact ⟨here, hhere, eq_of_enter henter hname⟩

end Tree

end BenchLedger.Disk
