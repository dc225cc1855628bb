import BenchLedger.Proofs.Disk.Filed

/-!
# Operations that succeed

`Wrote t t' directories p place e` is what every successful write of a file leaves behind: only
`place` changed, but for directories that were made above it, `e` stands there, and the path leads
there. Each operation adds what stood at the place before. Directories that are made change no place
where something stands, however far it gets: `makeDirectories_filed`.
-/

namespace BenchLedger.Disk

/-! ## The names of a path -/

/-- Names that lead nowhere else. -/
def Idle (names : List Name) : Prop := ∀ name ∈ names, name = [] ∨ name = dot

theorem idle_nil : Idle [] := fun _ hname => absurd hname List.not_mem_nil

namespace Path

theorem isAbsolute_singleton (name : Name) : isAbsolute ⟨[name]⟩ = false := by
  cases name <;> rfl

theorem segments_of_isAbsolute {p : Path} (h : p.isAbsolute = true) :
    p.segments = [] :: p.body ∧ p.body ≠ [] := by
  rw [body, if_pos h]
  unfold isAbsolute at h
  split at h
  · rename_i next rest hsegments
    rw [hsegments]
    exact ⟨rfl, List.cons_ne_nil next rest⟩
  · cases h

theorem segments_of_not_isAbsolute {p : Path} (h : p.isAbsolute = false) :
    p.segments = p.body := by
  rw [body, h]
  rfl

theorem getLast?_body (p : Path) :
    p.body.getLast? = p.segments.getLast? := by
  cases habsolute : p.isAbsolute with
  | true =>
    obtain ⟨hsegments, hne⟩ := segments_of_isAbsolute habsolute
    obtain ⟨first, rest, hbody⟩ := List.exists_cons_of_ne_nil hne
    rw [hsegments, hbody, List.getLast?_cons_cons]
  | false => rw [segments_of_not_isAbsolute habsolute]

theorem getLast?_body_join (directory : Path) (name : Name) :
    (directory.join ⟨[name]⟩).body.getLast? = some name := by
  unfold join
  rw [isAbsolute_singleton, Bool.false_or]
  split_ifs with hempty hslashed
  · exact getLast?_body _
  · rw [getLast?_body]
    simp
  · rw [getLast?_body]
    simp

end Path

namespace Tree

variable {t t' t'' : Tree} {p : Path} {place : Location} {e : Entry} {content : List UInt8}

/-! ## Writing files -/

/-- A path was written: only its place changed, and `e` stands there now. -/
structure Wrote (t t' : Tree) (directories : List Path) (p : Path) (place : Location) (e : Entry) :
    Prop where
  filed : Filed t t' directories [place]
  stands : t'.get? place = some e
  leads : t'.locate p = .ok place

theorem Wrote.after {directories : List Path} (hfiled : Filed t t' directories [])
    (h : Wrote t' t'' [] p place e) : Wrote t t'' directories p place e := by
  refine ⟨?_, h.stands, h.leads⟩
  have hboth := hfiled.trans h.filed
  rwa [List.append_nil, List.nil_append] at hboth

theorem wrote_put (hplace : place ≠ [])
    (hkind : ∀ old, t.get? place = some old → e.isDirectory = old.isDirectory)
    (hleads : (t.put place e).locate p = .ok place) : Wrote t (t.put place e) [] p place e :=
  ⟨filed_put hkind, get?_put_self hplace e, hleads⟩

theorem wrote_site {parent : Location} {name : Name}
    (hsite : t.site p = .ok (.named parent name false)) (hlong : isTooLong name = false)
    (hkind : ∀ old, t.get? (parent ++ [name]) = some old → e.isDirectory = old.isDirectory) :
    Wrote t (t.put (parent ++ [name]) e) [] p (parent ++ [name]) e := by
  have hne : parent ++ [name] ≠ [] := by simp
  refine wrote_put hne hkind ?_
  refine locate_of_site ((changes_put hkind).site hsite) hlong ?_
  rw [get?_put_self hne]
  rfl

theorem isDirectory_of_write {old : Entry} {update : List UInt8 → List UInt8} {isNothing : Bool}
    (h : Entry.write old update isNothing = .ok e) : e.isDirectory = old.isDirectory := by
  cases old with
  | file content =>
    cases h
    rfl
  | sink =>
    cases h
    rfl
  | full =>
    unfold Entry.write at h
    split_ifs at h
    cases h
    rfl
  | directory | barren => cases h

theorem kind_of_none (hnone : t.get? place = none) :
    ∀ old, t.get? place = some old → e.isDirectory = old.isDirectory := by
  intro old hold
  rw [hnone] at hold
  cases hold

theorem kind_of_write {old : Entry} {update : List UInt8 → List UInt8} {isNothing : Bool}
    (hold : t.get? place = some old) (hwrite : Entry.write old update isNothing = .ok e) :
    ∀ old', t.get? place = some old' → e.isDirectory = old'.isDirectory := by
  intro old' hold'
  rw [hold] at hold'
  cases hold'
  exact isDirectory_of_write hwrite

theorem createNew_eq_ok (h : t.createNew p content = .ok t') :
    ∃ place, t.get? place = none ∧ Wrote t t' [] p place (.file content) := by
  unfold createNew at h
  split at h
  · cases h
  · cases h
  · rename_i parent name slashed hsite
    split_ifs at h with hslashed
    rw [Bool.not_eq_true] at hslashed
    subst hslashed
    obtain ⟨hlong, hnone, rfl⟩ := add_eq_ok h
    exact ⟨_, hnone, wrote_site hsite hlong (kind_of_none hnone)⟩

theorem append_eq_ok {bytes : List UInt8} (h : t.append p bytes = .ok t') :
    ∃ place old e, t.get? place = some old ∧
      Entry.write old (· ++ bytes) bytes.isEmpty = .ok e ∧
      t.locate p = .ok place ∧ Wrote t t' [] p place e := by
  unfold append at h
  split at h
  · cases h
  · rename_i place hlocate
    split at h
    · cases h
    · rename_i old hold
      cases hwrite : Entry.write old (· ++ bytes) bytes.isEmpty with
      | error cause => simp [hwrite, Except.map] at h
      | ok e =>
        rw [hwrite] at h
        cases h
        have hkind := kind_of_write hold hwrite
        have hplace : place ≠ [] := by
          rintro rfl
          rw [get?_nil] at hold
          cases hold
          cases hwrite
        exact ⟨place, old, e, hold, hwrite, hlocate,
          wrote_put hplace hkind ((changes_put hkind).locate hlocate)⟩

theorem append_file {old : List UInt8} (hleads : t.locate p = .ok place)
    (hstands : t.get? place = some (.file old)) (bytes : List UInt8) :
    ∃ t', t.append p bytes = .ok t' := by
  refine ⟨t.put place (.file (old ++ bytes)), ?_⟩
  rw [append, hleads]
  simp only [hstands, Entry.write, Except.map]

theorem replace_eq_ok (h : t.replace p content = .ok t') :
    ∃ place e, Wrote t t' [] p place e ∧
      (t.get? place = none ∧ e = .file content ∨ ∃ old, t.get? place = some old ∧
        Entry.write old (fun _ => content) content.isEmpty = .ok e) := by
  unfold replace at h
  split at h
  · cases h
  · cases h
  · rename_i parent name slashed hsite
    split_ifs at h with hslashed hlong
    rw [Bool.not_eq_true] at hslashed hlong
    subst hslashed
    split at h
    · rename_i hnone
      obtain ⟨-, -, rfl⟩ := add_eq_ok h
      exact ⟨_, _, wrote_site hsite hlong (kind_of_none hnone), .inl ⟨hnone, rfl⟩⟩
    · rename_i old hold
      cases hwrite : Entry.write old (fun _ => content) content.isEmpty with
      | error cause => simp [hwrite, Except.map] at h
      | ok e =>
        rw [hwrite] at h
        cases h
        have hkind := kind_of_write hold hwrite
        exact ⟨_, e, wrote_site hsite hlong hkind, .inr ⟨old, hold, hwrite⟩⟩

theorem Wrote.getLast? {directories : List Path} (h : Wrote t t' directories p place e)
    {name : Name} (hlast : p.body.getLast? = some name) (hname : name.IsProper) :
    place.getLast? = some name :=
  getLast?_of_locate h.leads hlast hname

/-! ## Making directories -/

theorem walk_idle {names : List Name} (h : Idle names) (he : t.get? here = some e)
    (hdirectory : e.isDirectory = true) : t.walk here names = .ok here := by
  induction names with
  | nil => rfl
  | cons name names ih =>
    have henter : t.enter here name = .ok here := by
      simp [enter, he, hdirectory, h name List.mem_cons_self]
    rw [walk, henter]
    exact ih fun other hother => h other (List.mem_cons_of_mem name hother)

theorem makeDirectory_eq_ok (h : t.makeDirectory p = .ok t') : ∃ place, t.get? place = none ∧
    t' = t.put place .directory ∧ t'.locate p = .ok place ∧ t'.get? place = some .directory := by
  unfold makeDirectory at h
  split at h
  · cases h
  · cases h
  · rename_i parent name slashed hsite
    obtain ⟨hlong, hnone, rfl⟩ := add_eq_ok h
    obtain ⟨hpath, hname, -, before, hbody, hwalk, e, hhere, hdirectory⟩ := site_eq_named hsite
    have hchanges := changes_put_directory hnone
    have hplace : parent ++ [name] ≠ [] := by simp
    have hmade := get?_put_self hplace (t := t) .directory
    obtain ⟨e', he', hkind⟩ := hchanges.kind parent e hhere
    have henter : (t.put (parent ++ [name]) .directory).enter parent name =
        .ok (parent ++ [name]) := by
      rw [enter_of_isProper hname he' (hkind.trans hdirectory), hlong, hmade]
      rfl
    have hsplit : p.body =
        before.reverse ++ [name] ++ (p.body.reverse.takeWhile (· = [])).reverse := by
      have hparts := List.takeWhile_append_dropWhile (p := (· = [])) (l := p.body.reverse)
      rw [hbody] at hparts
      have hreverse := congrArg List.reverse hparts
      simpa using hreverse.symm
    refine ⟨parent ++ [name], hnone, rfl, ?_, hmade⟩
    unfold locate
    simp only [hpath]
    rw [hsplit, walk_append, walk_append, hchanges.origin, hchanges.walk hwalk]
    simp only [Except.bind, walk, henter]
    refine walk_idle (fun slash hslash => .inl ?_) hmade rfl
    have hall := List.all_takeWhile (p := (· = [])) (l := p.body.reverse)
    simpa using List.all_eq_true.1 hall slash (List.mem_reverse.1 hslash)

theorem makeDirectory_filed (h : t.makeDirectory p = .ok t') : Filed t t' [p] [] := by
  obtain ⟨place, hnone, rfl, hleads, -⟩ := makeDirectory_eq_ok h
  refine ⟨changes_put_directory hnone, fun other _ hbefore hafter => ?_⟩
  refine ⟨p, List.mem_singleton_self p, ?_⟩
  by_cases hsame : other = place
  · rw [hsame]
    exact hleads
  · rw [get?_put_of_ne hsame, hbefore] at hafter
    cases hafter

theorem isDirectory_of_makeDirectory (h : t.makeDirectory p = .ok t') :
    t'.isDirectory p = true := by
  obtain ⟨place, -, -, hleads, hmade⟩ := makeDirectory_eq_ok h
  simp [isDirectory, hleads, hmade, Entry.isDirectory]

theorem isDirectory_of_makeDirectories {above : List Path} (hempty : p.isEmpty = false)
    (h : t.makeDirectories (p :: above) = (.ok (), t')) : t'.isDirectory p = true := by
  have hstood {t₁ : Tree} {cause : Error}
      (h : ((if t₁.isDirectory p then .ok () else .error cause : Except Error Unit), t₁) =
        (.ok (), t')) : t'.isDirectory p = true := by
    split_ifs at h with hdirectory
    · cases h
      exact hdirectory
    · cases h
  rw [makeDirectories, hempty] at h
  cases hmade : t.makeDirectory p with
  | ok t₁ =>
    simp only [hmade] at h
    cases h
    exact isDirectory_of_makeDirectory hmade
  | error cause =>
    by_cases hcause : cause = .notFound
    · subst hcause
      by_cases htop : above = []
      · simp [hmade, htop] at h
      · simp only [hmade, Bool.false_eq_true, if_false, if_neg htop] at h
        generalize t.makeDirectories above = result at h
        obtain ⟨cause | made, t₁⟩ := result
        · cases h
        · dsimp only at h
          cases hagain : t₁.makeDirectory p with
          | ok t₂ =>
            rw [hagain] at h
            cases h
            exact isDirectory_of_makeDirectory hagain
          | error cause =>
            rw [hagain] at h
            exact hstood h
    · cases cause with
      | notFound => exact absurd rfl hcause
      | _ =>
        simp only [hmade] at h
        exact hstood h

/-- However far it gets, making directories makes nothing else. -/
theorem makeDirectories_filed (t : Tree) (paths : List Path) :
    Filed t (t.makeDirectories paths).2 paths [] := by
  induction paths generalizing t with
  | nil => exact .refl t
  | cons p above ih =>
    have hnothing : Filed t t (p :: above) [] := .nothing t _
    have hone {t t' : Tree} (h : t.makeDirectory p = .ok t') : Filed t t' (p :: above) [] :=
      (makeDirectory_filed h).mono (by simp) (List.Subset.refl _)
    rw [makeDirectories]
    by_cases hempty : p.isEmpty
    · rw [if_pos hempty]
      exact hnothing
    · rw [if_neg hempty]
      cases hmade : t.makeDirectory p with
      | ok t' => exact hone hmade
      | error cause =>
        by_cases hcause : cause = .notFound
        · subst hcause
          by_cases htop : above = []
          · simp only [if_pos htop]
            exact hnothing
          · simp only [if_neg htop]
            have habove := (ih t).mono (List.subset_cons_self p above) (List.Subset.refl _)
            generalize t.makeDirectories above = result at habove
            obtain ⟨cause | made, t'⟩ := result
            · exact habove
            · dsimp only at habove ⊢
              cases hagain : t'.makeDirectory p with
              | ok t'' => exact habove.append (hone hagain)
              | error cause => exact habove
        · cases cause with
          | notFound => exact absurd rfl hcause
          | _ => exact hnothing

end Tree

end BenchLedger.Disk
