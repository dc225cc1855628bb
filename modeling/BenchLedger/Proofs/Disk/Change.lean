import BenchLedger.Filing
import Mathlib.Tactic.Common

/-!
# What operations change in a tree

`Changes t t' written` says that from `t` to `t'` at most the places `written` got another entry,
that elsewhere nothing but directories was made, and that no file became a directory or the other
way round. Such changes compose, and a path that leads to a place still leads there afterwards.
-/

namespace BenchLedger.Disk

/-- A name for a file: neither empty nor one of the names that stand for directories. -/
structure Name.IsProper (name : Name) : Prop where
  ne_nil : name ≠ []
  ne_dot : name ≠ dot
  ne_dotDot : name ≠ dotDot

instance (name : Name) : Decidable name.IsProper :=
  decidable_of_iff (name ≠ [] ∧ name ≠ dot ∧ name ≠ dotDot)
    ⟨fun h => ⟨h.1, h.2.1, h.2.2⟩, fun h => ⟨h.ne_nil, h.ne_dot, h.ne_dotDot⟩⟩

namespace Tree

variable {t t' t'' : Tree} {p : Path} {place here : Location} {name : Name} {e : Entry}

/-! ## Changes -/

/-- At most the places `written` got another entry, but for new directories, and every entry stayed
of its kind. -/
structure Changes (t t' : Tree) (written : List Location) : Prop where
  workingDirectory : t'.workingDirectory = t.workingDirectory
  elsewhere : ∀ place, place ∉ written →
    t'.get? place = t.get? place ∨ (t.get? place = none ∧ t'.get? place = some .directory)
  kind : ∀ place e, t.get? place = some e →
    ∃ e', t'.get? place = some e' ∧ e'.isDirectory = e.isDirectory

namespace Changes

variable {written written' : List Location}

protected theorem refl (t : Tree) : Changes t t [] :=
  ⟨rfl, fun _ _ => .inl rfl, fun _ e he => ⟨e, he, rfl⟩⟩

protected theorem trans (h : Changes t t' written) (h' : Changes t' t'' written') :
    Changes t t'' (written ++ written') := by
  refine ⟨h'.workingDirectory.trans h.workingDirectory, fun place hplace => ?_, fun place e he => ?_⟩
  · rw [List.mem_append, not_or] at hplace
    rcases h.elsewhere place hplace.1 with hsame | ⟨hnone, hmade⟩
    · rw [← hsame]
      exact h'.elsewhere place hplace.2
    · rcases h'.elsewhere place hplace.2 with hsame' | ⟨hnone', -⟩
      · exact .inr ⟨hnone, hsame'.trans hmade⟩
      · rw [hmade] at hnone'
        cases hnone'
  · obtain ⟨e', he', hkind⟩ := h.kind place e he
    obtain ⟨e'', he'', hkind'⟩ := h'.kind place e' he'
    exact ⟨e'', he'', hkind'.trans hkind⟩

theorem mono (h : Changes t t' written) (hsub : written ⊆ written') : Changes t t' written' :=
  ⟨h.workingDirectory, fun place hplace => h.elsewhere place fun hmem => hplace (hsub hmem), h.kind⟩

theorem kept (h : Changes t t' written) (hplace : place ∉ written) (he : t.get? place = some e) :
    t'.get? place = some e := by
  rcases h.elsewhere place hplace with hsame | ⟨hnone, -⟩
  · exact hsame.trans he
  · rw [he] at hnone
    cases hnone

theorem kept_back (h : Changes t t' written) (hplace : place ∉ written)
    (hfile : t'.get? place ≠ some .directory) : t.get? place = t'.get? place := by
  rcases h.elsewhere place hplace with hsame | ⟨-, hmade⟩
  · exact hsame.symm
  · exact absurd hmade hfile

theorem file_iff (h : Changes t t' written) (hplace : place ∉ written) {content : List UInt8} :
    t'.get? place = some (.file content) ↔ t.get? place = some (.file content) := by
  constructor
  · intro hafter
    rw [h.kept_back hplace (by simp [hafter]), hafter]
  · exact h.kept hplace

theorem isSome (h : Changes t t' written) (hplace : (t.get? place).isSome) :
    (t'.get? place).isSome := by
  obtain ⟨e, he⟩ := Option.isSome_iff_exists.1 hplace
  obtain ⟨e', he', -⟩ := h.kind place e he
  rw [he']
  rfl

theorem none_back (h : Changes t t' written) (hplace : t'.get? place = none) :
    t.get? place = none := by
  cases he : t.get? place with
  | none => rfl
  | some e =>
    obtain ⟨e', he', -⟩ := h.kind place e he
    rw [hplace] at he'
    cases he'

/-! ### Paths lead where they led -/

theorem enter (h : Changes t t' written) (henter : t.enter here name = .ok place) :
    t'.enter here name = .ok place := by
  unfold Tree.enter at henter ⊢
  cases hhere : t.get? here with
  | none => simp [hhere] at henter
  | some e =>
    obtain ⟨e', he', hkind⟩ := h.kind here e hhere
    simp only [hhere] at henter
    simp only [he', hkind]
    by_cases hnext : (t.get? (here ++ [name])).isSome
    · simpa [hnext, h.isSome hnext] using henter
    · split_ifs at henter ⊢ with hfile hidle hup hlong
      · exact henter
      · exact henter

theorem walk (h : Changes t t' written) {names : List Name} (hwalk : t.walk here names = .ok place) :
    t'.walk here names = .ok place := by
  induction names generalizing here with
  | nil => exact hwalk
  | cons name names ih =>
    rw [Tree.walk] at hwalk ⊢
    cases henter : t.enter here name with
    | error e => simp [henter] at hwalk
    | ok next =>
      rw [h.enter henter]
      rw [henter] at hwalk
      exact ih hwalk

theorem origin (h : Changes t t' written) (p : Path) : t'.origin p = t.origin p := by
  rw [Tree.origin, Tree.origin, h.workingDirectory]

theorem locate (h : Changes t t' written) (hlocate : t.locate p = .ok place) :
    t'.locate p = .ok place := by
  unfold Tree.locate at hlocate ⊢
  cases hpath : admit? p with
  | some e => simp [hpath] at hlocate
  | none =>
    simp only [hpath] at hlocate ⊢
    rw [h.origin]
    exact h.walk hlocate

theorem isDirectory (h : Changes t t' written) (hdirectory : t.isDirectory p = true) :
    t'.isDirectory p = true := by
  unfold Tree.isDirectory at hdirectory ⊢
  cases hlocate : t.locate p with
  | error cause => simp [hlocate] at hdirectory
  | ok place =>
    simp only [hlocate] at hdirectory
    obtain ⟨e, he, hpassed⟩ := (Option.any_eq_true _ _).1 hdirectory
    obtain ⟨e', he', hkind⟩ := h.kind place e he
    simp only [h.locate hlocate, he', Option.any_some, hkind, hpassed]

end Changes

/-! ## Putting entries -/

theorem get?_nil (t : Tree) : t.get? [] = some .directory := rfl

theorem ne_nil_of_get? (h : t.get? place ≠ some .directory) : place ≠ [] := by
  rintro rfl
  exact h rfl

theorem changes_put (h : ∀ old, t.get? place = some old → e.isDirectory = old.isDirectory) :
    Changes t (t.put place e) [place] := by
  refine ⟨rfl, fun other hother => .inl (get?_put_of_ne (by simpa using hother) e),
    fun other old hold => ?_⟩
  by_cases hsame : other = place
  · subst hsame
    by_cases hnil : other = []
    · subst hnil
      exact ⟨old, hold, rfl⟩
    · exact ⟨e, get?_put_self hnil e, h old hold⟩
  · exact ⟨old, (get?_put_of_ne hsame e).trans hold, rfl⟩

theorem changes_put_directory (h : t.get? place = none) :
    Changes t (t.put place .directory) [] := by
  have hput : Changes t (t.put place .directory) [place] :=
    changes_put fun old hold => by simp [h] at hold
  refine ⟨rfl, fun other _ => ?_, hput.kind⟩
  by_cases hsame : other = place
  · subst hsame
    have hnone : t.get? other ≠ some .directory := by simp [h]
    exact .inr ⟨h, get?_put_self (ne_nil_of_get? hnone) .directory⟩
  · exact .inl (get?_put_of_ne hsame .directory)

theorem add_eq_ok (h : t.add here name e = .ok t') :
    isTooLong name = false ∧ t.get? (here ++ [name]) = none ∧ t' = t.put (here ++ [name]) e := by
  unfold add at h
  split_ifs at h with hlong hsome hbarren
  cases h
  exact ⟨by simpa using hlong, by simpa using hsome, rfl⟩

/-! ## Walks -/

theorem enter_of_isProper (hname : name.IsProper) (he : t.get? here = some e)
    (hdirectory : e.isDirectory = true) : t.enter here name =
      if isTooLong name then .error .nameTooLong
      else if (t.get? (here ++ [name])).isSome then .ok (here ++ [name])
      else .error .notFound := by
  simp [enter, he, hdirectory, hname.ne_nil, hname.ne_dot, hname.ne_dotDot]

theorem eq_of_enter (h : t.enter here name = .ok place) (hname : name.IsProper) :
    place = here ++ [name] := by
  unfold enter at h
  cases hhere : t.get? here with
  | none => simp [hhere] at h
  | some e =>
    simp only [hhere] at h
    split_ifs at h with hfile hidle hup hlong hsome
    · exact absurd hidle (by simp [hname.ne_nil, hname.ne_dot])
    · exact absurd hup hname.ne_dotDot
    · cases h
      rfl

theorem walk_append (t : Tree) (here : Location) (xs ys : List Name) :
    t.walk here (xs ++ ys) = (t.walk here xs).bind fun next => t.walk next ys := by
  induction xs generalizing here with
  | nil => rfl
  | cons x xs ih =>
    rw [List.cons_append, walk, walk]
    cases t.enter here x with
    | error e => rfl
    | ok next => exact ih next

theorem walk_snoc {front : List Name}
    (h : t.walk here (front ++ [name]) = .ok place) :
    ∃ next, t.walk here front = .ok next ∧ t.enter next name = .ok place := by
  rw [walk_append] at h
  cases hfront : t.walk here front with
  | error e => simp [hfront, Except.bind] at h
  | ok next =>
    refine ⟨next, rfl, ?_⟩
    simp only [hfront, Except.bind, walk] at h
    cases henter : t.enter next name with
    | error e => simp [henter] at h
    | ok final => simpa [henter] using h

theorem locate_eq_ok (h : t.locate p = .ok place) :
    admit? p = none ∧ t.walk (t.origin p) p.body = .ok place := by
  unfold locate at h
  cases hpath : admit? p with
  | some e => simp [hpath] at h
  | none =>
    rw [hpath] at h
    exact ⟨rfl, h⟩

/-! ## Sites -/

theorem site_eq_named {slashed : Bool} (h : t.site p = .ok (.named here name slashed)) :
    admit? p = none ∧ name.IsProper ∧
      slashed = decide (p.body.getLast? = some []) ∧
      ∃ before, p.body.reverse.dropWhile (· = []) = name :: before ∧
        t.walk (t.origin p) before.reverse = .ok here ∧
        ∃ e, t.get? here = some e ∧ e.isDirectory = true := by
  unfold site at h
  cases hpath : admit? p with
  | some e => simp [hpath] at h
  | none =>
    simp only [hpath] at h
    cases hbody : p.body.reverse.dropWhile (· = []) with
    | nil => simp [hbody] at h
    | cons last before =>
      have hlast : last ≠ [] := by
        have := List.head?_dropWhile_not (fun s : Name => decide (s = [])) p.body.reverse
        rw [hbody] at this
        simpa using this
      simp only [hbody] at h
      cases hwalk : t.walk (t.origin p) before.reverse with
      | error e => simp [hwalk] at h
      | ok parent =>
        simp only [hwalk] at h
        cases hparent : t.get? parent with
        | none => simp [hparent] at h
        | some e =>
          simp only [hparent] at h
          split_ifs at h with hfile hdots
          · cases h
          · cases h
            rw [not_or] at hdots
            exact ⟨rfl, ⟨hlast, hdots.1, hdots.2⟩, rfl, before, rfl, hwalk, e, hparent,
              by simpa using hfile⟩

theorem locate_of_site (h : t.site p = .ok (.named here name false)) (hlong : isTooLong name = false)
    (hsome : (t.get? (here ++ [name])).isSome) : t.locate p = .ok (here ++ [name]) := by
  obtain ⟨hpath, hname, hslashed, before, hbody, hwalk, e, hhere, hdirectory⟩ :=
    site_eq_named h
  have hsplit : p.body = before.reverse ++ [name] := by
    rcases List.eq_nil_or_concat p.body with hnil | ⟨front, last, hfront⟩
    · simp [hnil] at hbody
    · have hlast : last ≠ [] := by
        intro hempty
        simp [hfront, hempty] at hslashed
      rw [hfront, List.concat_eq_append, List.reverse_append, List.reverse_singleton,
        List.singleton_append, List.dropWhile_cons_of_neg (by simpa using hlast)] at hbody
      rw [hfront]
      cases hbody
      simp
  have henter : t.enter here name = .ok (here ++ [name]) := by
    rw [enter_of_isProper hname hhere hdirectory, hlong, hsome]
    rfl
  unfold locate
  simp only [hpath]
  rw [hsplit, walk_append, hwalk]
  simp only [Except.bind, walk, henter]

theorem Changes.site {written : List Location} (hc : Changes t t' written) {s : Site}
    (h : t.site p = .ok s) : t'.site p = .ok s := by
  unfold Tree.site at h ⊢
  cases hpath : admit? p with
  | some e => simp [hpath] at h
  | none =>
    simp only [hpath] at h ⊢
    cases hbody : p.body.reverse.dropWhile (· = []) with
    | nil => simpa only [hbody] using h
    | cons last before =>
      simp only [hbody] at h ⊢
      cases hwalk : t.walk (t.origin p) before.reverse with
      | error e => simp [hwalk] at h
      | ok parent =>
        simp only [hwalk] at h
        cases hparent : t.get? parent with
        | none => simp [hparent] at h
        | some e =>
          obtain ⟨e', he', hkind⟩ := hc.kind parent e hparent
          simp only [hparent] at h
          simp only [hc.origin, hc.walk hwalk, he', hkind]
          exact h

theorem getLast?_of_locate (h : t.locate p = .ok place) (hlast : p.body.getLast? = some name)
    (hname : name.IsProper) : place.getLast? = some name := by
  obtain ⟨front, hbody⟩ := List.getLast?_eq_some_iff.1 hlast
  obtain ⟨-, hwalk⟩ := locate_eq_ok h
  rw [hbody] at hwalk
  obtain ⟨next, -, henter⟩ := walk_snoc hwalk
  rw [eq_of_enter henter hname, List.getLast?_concat]

end Tree

end BenchLedger.Disk
