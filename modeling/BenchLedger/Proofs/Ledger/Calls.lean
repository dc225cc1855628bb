import BenchLedger.Proofs.Ledger.Growth
import Mathlib.Data.List.Induction

/-!
# Histories of a ledger

The two calls on a ledger are made one after another on one path, and some of them fail. `Turn`
lists what a single call can do to the tree. From it follows what stays true of a whole history
(`Sound`): the file that the path leads to holds what it held at the start, or else the header, and
then the rows of the calls that succeeded.
-/

namespace BenchLedger.Ledger

open Disk Text

/-! ## Calls -/

/-- A call on the ledger at a path. -/
inductive Call
  | create
  | add (s : Summary) (label : String) (time : Moment)

/-- Whether a call failed and, if not, whether it says that it created the ledger. A call that adds
a row never says so. -/
abbrev Answer := Except FilingError Bool

/-- Makes a call: the answer and the tree that it leaves. -/
def Call.make (p : Path) (t : Tree) : Call → Answer × Tree
  | .create =>
    match Ledger.create p t with
    | .ok made t' => (.ok made, t')
    | .error e t' => (.error e, t')
  | .add s label time =>
    match Ledger.add p s label time t with
    | .ok () t' => (.ok false, t')
    | .error e t' => (.error e, t')

/-- The calls made so far with their answers, and the tree that they left. -/
structure Log where
  entries : List (Call × Answer)
  tree : Tree

/-- A log after one more call. -/
def Log.extend (p : Path) (log : Log) (call : Call) : Log :=
  ⟨log.entries ++ [(call, (call.make p log.tree).1)], (call.make p log.tree).2⟩

/-- Makes calls one after another, whether or not they fail. -/
def makeAll (p : Path) (calls : List Call) (t : Tree) : Log := calls.foldl (Log.extend p) ⟨[], t⟩

/-- The row that a call added: none if it failed. -/
def rowOf : Call × Answer → List Char
  | (.add s label time, .ok _) => row s label time
  | (.add _ _ _, .error _) | (.create, _) => []

/-- The rows that some calls added, in order. -/
def rows (entries : List (Call × Answer)) : List Char := entries.flatMap rowOf

theorem makeAll_snoc (p : Path) (calls : List Call) (call : Call) (t : Tree) :
    makeAll p (calls ++ [call]) t = (makeAll p calls t).extend p call := by
  simp [makeAll]

theorem rows_snoc (entries : List (Call × Answer)) (entry : Call × Answer) :
    rows (entries ++ [entry]) = rows entries ++ rowOf entry := by
  simp [rows]

/-! ## What a call can do -/

/-- What one call can do between two trees. -/
inductive Turn (p : Path) (t t' : Tree) : Call → Answer → Prop
  /-- It fails, and at most directories are made. -/
  | refused {call : Call} {e : FilingError} (hfiled : t.Filed t' p.above []) :
      Turn p t t' call (.error e)
  /-- It creates the ledger at a path that was free. -/
  | founded {place : Location} (hfree : ¬t.Taken p) (hnone : t.get? place = none)
      (hwrote : t.Wrote t' p.above p place (.file (Utf8.encode header.toList))) :
      Turn p t t' .create (.ok true)
  /-- It finds the path taken. -/
  | stood (hfiled : t.Filed t' p.above []) (htaken : t'.Taken p) : Turn p t t' .create (.ok false)
  /-- It adds its row. -/
  | added {s : Summary} {label : String} {time : Moment} {place : Location}
      (hleads : t'.locate p = .ok place) (hfiled : t.Filed t' p.above [place])
      (hgrew : Grew (row s label time) (t.get? place) (t'.get? place)) :
      Turn p t t' (.add s label time) (.ok false)

variable {p : Path} {t t' t'' : Tree} {call : Call} {answer : Answer}

theorem Call.turn (h : call.make p t = (answer, t')) : Turn p t t' call answer := by
  cases call with
  | create =>
    rw [make] at h
    cases hcreate : Ledger.create p t with
    | error e t₁ =>
      simp only [hcreate] at h
      cases h
      exact .refused (create_eq_error hcreate)
    | ok made t₁ =>
      simp only [hcreate] at h
      cases h
      rcases create_eq_ok hcreate with ⟨rfl, hfiled, htaken⟩ | ⟨rfl, hfree, place, hnone, hwrote⟩
      · exact .stood hfiled htaken
      · exact .founded hfree hnone hwrote
  | add s label time =>
    rw [make] at h
    cases hadd : Ledger.add p s label time t with
    | error e t₁ =>
      simp only [hadd] at h
      cases h
      exact .refused (add_eq_error hadd)
    | ok u t₁ =>
      simp only [hadd] at h
      cases h
      obtain ⟨place, hleads, hfiled, hgrew⟩ := add_eq_ok hadd
      exact .added hleads hfiled hgrew

theorem create_of_isDirectory (h : t.isDirectory p = true) : ∃ e, create p t = .error e t := by
  have hready : ∃ e, Filing.makeReady p t = .error e t := by
    unfold Filing.makeReady
    split_ifs
    · exact ⟨_, rfl⟩
    · exact ⟨_, rfl⟩
  obtain ⟨e, he⟩ := hready
  exact ⟨e, bind_of_error he _⟩

theorem Call.refused_of_isDirectory (h : t.isDirectory p = true) (call : Call) :
    ∃ e, call.make p t = (.error e, t) := by
  obtain ⟨e, he⟩ := create_of_isDirectory h
  refine ⟨e, ?_⟩
  cases call with
  | create => rw [make, he]
  | add s label time =>
    have hadd : Ledger.add p s label time t = .error e t := bind_of_error he _
    rw [make, hadd]

theorem Call.isDirectory_of_make {made : Bool} (h : call.make p t = (.ok made, t')) :
    t.isDirectory p = false := by
  by_contra hdirectory
  rw [Bool.not_eq_false] at hdirectory
  obtain ⟨e, he⟩ := Call.refused_of_isDirectory hdirectory call
  rw [he] at h
  cases h

theorem Turn.taken {made : Bool} (h : Turn p t t' call (.ok made)) : t'.Taken p := by
  cases h with
  | founded hfree hnone hwrote => exact .stands hwrote.leads hwrote.stands
  | stood hfiled htaken => exact htaken
  | added hleads hfiled hgrew =>
    obtain ⟨e, he⟩ := hgrew.exists_after
    exact .stands hleads he

theorem Turn.free (h : Turn p t t' call (.ok true)) : ¬t.Taken p := by
  cases h with
  | founded hfree => exact hfree

theorem Turn.changes (h : Turn p t t' call answer) : ∃ written, t.Changes t' written := by
  cases h with
  | refused hfiled | stood hfiled => exact ⟨_, hfiled.changes⟩
  | founded hfree hnone hwrote => exact ⟨_, hwrote.filed.changes⟩
  | added hleads hfiled => exact ⟨_, hfiled.changes⟩

/-! ## What a history keeps -/

theorem Grew.founded : Grew [] none (some (.file (Utf8.encode header.toList))) := by
  have hfresh : Grew [] none (some (.file (Utf8.encode header.toList ++ Utf8.encode []))) := .fresh
  have hnone : Utf8.encode [] = [] := rfl
  rwa [hnone, List.append_nil] at hfresh

theorem Grew.trans {xs ys : List Char} {before between after : Option Entry}
    (h : Grew xs before between) (h' : Grew ys between after) : Grew (xs ++ ys) before after := by
  cases h with
  | file old =>
    rw [h'.eq_of_file, List.append_assoc, ← Utf8.encode_append]
    exact .file old
  | fresh =>
    rw [h'.eq_of_file, List.append_assoc, ← Utf8.encode_append]
    exact .fresh
  | sink =>
    cases h'
    exact .sink

/-- Where the rows of a history went. -/
inductive Kept (p : Path) (t t' : Tree) (added : List Char) : Prop
  /-- No row was added, and no ledger was created. -/
  | nowhere (hfiled : t.Filed t' p.above []) (hnone : added = [])
  /-- All rows stand at the one place that the path leads to. -/
  | onePlace {place : Location} (hleads : t'.locate p = .ok place) (hfiled : t.Filed t' p.above [place])
      (hgrew : Grew added (t.get? place) (t'.get? place))

/-- What holds of every log of calls that started on the tree `t`. -/
structure Sound (p : Path) (t : Tree) (log : Log) : Prop where
  changes : ∃ written, t.Changes log.tree written
  kept : Kept p t log.tree (rows log.entries)
  failed : (∀ entry ∈ log.entries, entry.2.isOk = false) → t.Filed log.tree p.above []
  taken : ∀ entry ∈ log.entries, entry.2.isOk = true →
    log.tree.Taken p ∧ t.isDirectory p = false
  once : log.entries.Pairwise fun x y => x.2.isOk = true → y.2 ≠ .ok true

variable {added : List Char}

theorem Kept.filed (h : Kept p t t' added) (hfiled : t'.Filed t'' p.above []) :
    Kept p t t'' added := by
  cases h with
  | nowhere hbefore hnone =>
    exact .nowhere (hbefore.append hfiled) hnone
  | onePlace hleads hbefore hgrew =>
    refine .onePlace (hfiled.changes.locate hleads) (hbefore.append hfiled) ?_
    obtain ⟨e, he⟩ := hgrew.exists_after
    rw [hfiled.changes.kept List.not_mem_nil he, ← he]
    exact hgrew

/-- A ledger is created only where no row can have gone. -/
theorem Kept.found {place : Location} (h : Kept p t t' added) (hfree : ¬t'.Taken p)
    (hnone : t'.get? place = none)
    (hwrote : t'.Wrote t'' p.above p place (.file (Utf8.encode header.toList))) :
    Kept p t t'' added := by
  cases h with
  | nowhere hbefore hadded =>
    refine .onePlace hwrote.leads (hbefore.append hwrote.filed) ?_
    rw [hbefore.changes.none_back hnone, hwrote.stands, hadded]
    exact .founded
  | onePlace hleads hbefore hgrew =>
    obtain ⟨e, he⟩ := hgrew.exists_after
    exact absurd (.stands hleads he) hfree

theorem Kept.add {place : Location} {new : List Char} (h : Kept p t t' added)
    (hleads : t''.locate p = .ok place) (hfiled : t'.Filed t'' p.above [place])
    (hgrew : Grew new (t'.get? place) (t''.get? place)) : Kept p t t'' (added ++ new) := by
  cases h with
  | nowhere hbefore hadded =>
    refine .onePlace hleads (hbefore.append hfiled) ?_
    rw [hbefore.changes.kept_back List.not_mem_nil hgrew.ne_directory, hadded, List.nil_append]
    exact hgrew
  | @onePlace earlier hearlier hbefore hgrown =>
    have hsame : earlier = place := by
      have hlater := hfiled.changes.locate hearlier
      rw [hleads, Except.ok.injEq] at hlater
      exact hlater.symm
    subst hsame
    have hboth : t.Filed t'' p.above [earlier] :=
      (hbefore.append hfiled).mono (List.Subset.refl _) (by simp)
    exact .onePlace hleads hboth (hgrown.trans hgrew)

theorem Kept.extend (h : Kept p t t' added) (hturn : Turn p t' t'' call answer) :
    Kept p t t'' (added ++ rowOf (call, answer)) := by
  cases hturn with
  | @refused _ e hfiled =>
    have hnone : rowOf (call, .error e) = [] := by cases call <;> rfl
    rw [hnone, List.append_nil]
    exact h.filed hfiled
  | stood hfiled =>
    rw [rowOf, List.append_nil]
    exact h.filed hfiled
  | founded hfree hnone hwrote =>
    rw [rowOf, List.append_nil]
    exact h.found hfree hnone hwrote
  | added hleads hfiled hgrew => exact h.add hleads hfiled hgrew

theorem sound_nil (p : Path) (t : Tree) : Sound p t ⟨[], t⟩ where
  changes := ⟨[], .refl t⟩
  kept := .nowhere (.nothing t _) rfl
  failed := fun _ => .nothing t _
  taken := by simp
  once := .nil

theorem Sound.extend {log : Log} (h : Sound p t log) (call : Call) :
    Sound p t (log.extend p call) := by
  generalize hmake : call.make p log.tree = result
  obtain ⟨answer, t'⟩ := result
  have hturn := Call.turn hmake
  obtain ⟨written, hbefore⟩ := h.changes
  obtain ⟨written', hchanges⟩ := hturn.changes
  rw [Log.extend, hmake]
  refine ⟨⟨_, hbefore.trans hchanges⟩, ?_, ?_, ?_, ?_⟩
  · rw [rows_snoc]
    exact h.kept.extend hturn
  · intro hfailed
    have hlast := hfailed (call, answer) (by simp)
    have hearlier := h.failed fun entry hentry => hfailed entry (List.mem_append_left _ hentry)
    cases hturn with
    | refused hfiled => exact hearlier.append hfiled
    | founded | stood | added => cases hlast
  · intro entry hentry hok
    rw [List.mem_append, List.mem_singleton] at hentry
    rcases hentry with hearlier | rfl
    · obtain ⟨htaken, hstart⟩ := h.taken entry hearlier hok
      exact ⟨hchanges.taken htaken, hstart⟩
    · cases answer with
      | error e => cases hok
      | ok made =>
        refine ⟨hturn.taken, ?_⟩
        by_contra hstart
        rw [Bool.not_eq_false] at hstart
        have hnow := Call.isDirectory_of_make hmake
        rw [hbefore.isDirectory hstart] at hnow
        cases hnow
  · rw [List.pairwise_append]
    refine ⟨h.once, List.pairwise_singleton _ _, ?_⟩
    intro entry hentry last hlast hok hmade
    rw [List.mem_singleton] at hlast
    subst hlast
    obtain ⟨htaken, -⟩ := h.taken entry hentry hok
    obtain rfl : answer = .ok true := hmade
    exact hturn.free htaken

theorem makeAll_sound (p : Path) (calls : List Call) (t : Tree) :
    Sound p t (makeAll p calls t) := by
  induction calls using List.reverseRecOn with
  | nil => exact sound_nil p t
  | append_singleton calls call ih =>
    rw [makeAll_snoc]
    exact ih.extend call

theorem makeAll_calls (p : Path) (calls : List Call) (t : Tree) :
    (makeAll p calls t).entries.map Prod.fst = calls := by
  induction calls using List.reverseRecOn with
  | nil => rfl
  | append_singleton calls call ih =>
    rw [makeAll_snoc, Log.extend, List.map_append, ih]
    rfl

/-! ## The ledger at the end -/

section kept

variable {place : Location} {held : List UInt8}

theorem Kept.content (h : Kept p t t' added) (hleads : t'.locate p = .ok place)
    (hstands : t'.get? place = some (.file held)) :
    ∃ base, held = base ++ Utf8.encode added ∧
      (t.get? place = some (.file base) ∨
        t.get? place = none ∧ base = Utf8.encode header.toList) := by
  cases h with
  | nowhere hfiled hnone =>
    rw [hnone]
    exact ⟨held, (List.append_nil held).symm,
      .inl ((hfiled.changes.file_iff List.not_mem_nil).1 hstands)⟩
  | @onePlace other hother hfiled hgrew =>
    obtain rfl : other = place := by
      rw [hleads, Except.ok.injEq] at hother
      exact hother.symm
    generalize t.get? other = before at hgrew ⊢
    generalize hafter : t'.get? other = after at hgrew
    rw [hstands] at hafter
    cases hgrew with
    | file old =>
      rw [Option.some.injEq, Entry.file.injEq] at hafter
      exact ⟨old, hafter, .inl rfl⟩
    | fresh =>
      rw [Option.some.injEq, Entry.file.injEq] at hafter
      exact ⟨Utf8.encode header.toList, hafter, .inr ⟨rfl, rfl⟩⟩
    | sink => cases hafter

theorem Kept.file (h : Kept p t t' added) (hleads : t.locate p = .ok place)
    (hstands : t.get? place = some (.file held)) :
    t'.locate p = .ok place ∧ t'.get? place = some (.file (held ++ Utf8.encode added)) := by
  cases h with
  | nowhere hfiled hnone =>
    rw [hnone]
    refine ⟨hfiled.changes.locate hleads, ?_⟩
    rw [hfiled.changes.kept List.not_mem_nil hstands]
    exact congrArg (some ∘ Entry.file) (List.append_nil held).symm
  | @onePlace other hother hfiled hgrew =>
    obtain rfl : other = place := by
      rw [hfiled.changes.locate hleads, Except.ok.injEq] at hother
      exact hother.symm
    rw [hstands] at hgrew
    exact ⟨hother, hgrew.eq_of_file⟩

theorem Kept.elsewhere (h : Kept p t t' added) (hother : t'.locate p ≠ .ok place) :
    t'.get? place = some (.file held) ↔ t.get? place = some (.file held) := by
  cases h with
  | nowhere hfiled => exact hfiled.changes.file_iff List.not_mem_nil
  | @onePlace ledger hleads hfiled =>
    apply hfiled.changes.file_iff
    rw [List.mem_singleton]
    rintro rfl
    exact hother hleads

end kept

/-- Where a path leads at which calls succeeded: to a file, to a device that holds nothing, or, if
no row was added, perhaps to a directory. -/
theorem Kept.leads (h : Kept p t t' added) (htaken : t'.Taken p) :
    (∃ place content, t'.locate p = .ok place ∧ t'.get? place = some (.file content)) ∨
    (∃ place e, (e = .sink ∨ e = .full) ∧ t'.locate p = .ok place ∧ t.get? place = some e ∧
      t'.get? place = some e) ∨
    (t'.isDirectory p = true ∨ t'.site p = .ok .standing) ∧ added = [] := by
  cases h with
  | nowhere hfiled hnone =>
    cases htaken with
    | dotted hsite => exact .inr (.inr ⟨.inr hsite, hnone⟩)
    | @stands place e hleads hstands =>
      have hdirectory (hpassed : e.isDirectory = true) : t'.isDirectory p = true := by
        simp only [Tree.isDirectory, hleads, hstands, Option.any_some, hpassed]
      cases e with
      | file content => exact .inl ⟨place, content, hleads, hstands⟩
      | sink | full =>
        have hbefore : t.get? place = t'.get? place :=
          hfiled.changes.kept_back List.not_mem_nil (by simp [hstands])
        exact .inr (.inl ⟨place, _, by simp, hleads, hbefore.trans hstands, hstands⟩)
      | directory | barren => exact .inr (.inr ⟨.inl (hdirectory rfl), hnone⟩)
  | @onePlace place hleads hfiled hgrew =>
    generalize hbefore : t.get? place = before at hgrew
    generalize hafter : t'.get? place = after at hgrew
    cases hgrew with
    | file | fresh => exact .inl ⟨place, _, hleads, hafter⟩
    | sink => exact .inr (.inl ⟨place, .sink, .inl rfl, hleads, hbefore, hafter⟩)

/-- **A ledger holds what it held and then the rows that were added.** Whatever calls are made on a
path, the file that it leads to at the end holds what stood there at the start, or the header if
nothing did, and then the rows of the calls that succeeded, in order; every other file is what it
was, and so is the ledger if all calls failed. Once a call succeeded the path leads to such a file,
or else to a device that takes rows and holds none, or to a directory that did not stand at the
start, and then no row was added. No call says that it created the ledger after one that succeeded.
A call that fails changes no file, and a call to create says that it created the ledger exactly if
it did. -/
theorem makeAll_content (p : Path) :
    (∀ calls t, ∃ entries t', makeAll p calls t = ⟨entries, t'⟩ ∧ entries.map Prod.fst = calls ∧
      (∀ place content, t'.locate p = .ok place → t'.get? place = some (.file content) →
        ∃ base, content = base ++ Utf8.encode (rows entries) ∧
          (t.get? place = some (.file base) ∨
            t.get? place = none ∧ base = Utf8.encode header.toList)) ∧
      (∀ place base, t.locate p = .ok place → t.get? place = some (.file base) →
        t'.locate p = .ok place ∧
          t'.get? place = some (.file (base ++ Utf8.encode (rows entries)))) ∧
      (∀ place content, t'.locate p ≠ .ok place →
        (t'.get? place = some (.file content) ↔ t.get? place = some (.file content))) ∧
      ((∀ entry ∈ entries, entry.2.isOk = false) → ∀ place content,
        t'.get? place = some (.file content) ↔ t.get? place = some (.file content)) ∧
      (∀ entry ∈ entries, entry.2.isOk = true →
        (∃ place content, t'.locate p = .ok place ∧ t'.get? place = some (.file content)) ∨
        (∃ place e, (e = .sink ∨ e = .full) ∧ t'.locate p = .ok place ∧ t.get? place = some e ∧
          t'.get? place = some e) ∨
        (t.isDirectory p = false ∧ (t'.isDirectory p = true ∨ t'.site p = .ok .standing) ∧
          rows entries = [])) ∧
      entries.Pairwise fun earlier later => earlier.2.isOk = true → later.2 ≠ .ok true) ∧
    (∀ call t e t', Call.make p t call = (.error e, t') → ∀ place content,
      t'.get? place = some (.file content) ↔ t.get? place = some (.file content)) ∧
    ∀ t made t', Call.create.make p t = (.ok made, t') →
      (made = true ↔ ∃ place, t.get? place = none ∧ t'.locate p = .ok place ∧
        t'.get? place = some (.file (Utf8.encode header.toList))) := by
  refine ⟨?_, ?_, ?_⟩
  · intro calls t
    have h := makeAll_sound p calls t
    refine ⟨_, _, rfl, makeAll_calls p calls t, ?_, ?_, ?_, ?_, ?_, h.once⟩
    · exact fun place content => h.kept.content
    · exact fun place base => h.kept.file
    · exact fun place content => h.kept.elsewhere
    · exact fun hfailed place content => (h.failed hfailed).changes.file_iff List.not_mem_nil
    · intro entry hentry hok
      obtain ⟨htaken, hstart⟩ := h.taken entry hentry hok
      exact (h.kept.leads htaken).imp_right (.imp_right fun hdirectory => ⟨hstart, hdirectory⟩)
  · intro call t e t' h place content
    cases Call.turn h with
    | refused hfiled => exact hfiled.changes.file_iff List.not_mem_nil
  · intro t made t' h
    cases Call.turn h with
    | @founded place hfree hnone hwrote =>
      exact ⟨fun _ => ⟨place, hnone, hwrote.leads, hwrote.stands⟩, fun _ => rfl⟩
    | stood hfiled htaken =>
      constructor
      · intro hfalse
        cases hfalse
      · rintro ⟨place, hnone, -, hstands⟩
        rw [hfiled.changes.file_iff List.not_mem_nil, hnone] at hstands
        cases hstands

/-- A tree with one file, `ledger`, that holds a sharp. -/
def sharpLedger : Tree := { entries := [(["ledger".toList], .file [0x23])] }

/-- A row with no figures. -/
def plainRow : Call := .add ⟨.unknown, none, none⟩ "capture" ⟨⟨2026, 10, 16⟩, 0, 0⟩

theorem makeAll_content_twoRows :
    (makeAll ⟨["ledger".toList]⟩ [.create, plainRow, plainRow] sharpLedger).tree.get?
        ["ledger".toList] =
      some (.file ([0x23] ++ Utf8.encode (rowOf (plainRow, .ok false) ++
        rowOf (plainRow, .ok false)))) := by
  obtain ⟨entries, t', h, -, -, hledger, -⟩ :=
    (makeAll_content ⟨["ledger".toList]⟩).1 [.create, plainRow, plainRow] sharpLedger
  have hrows : rows (makeAll ⟨["ledger".toList]⟩ [.create, plainRow, plainRow] sharpLedger).entries =
      rowOf (plainRow, .ok false) ++ rowOf (plainRow, .ok false) := by decide +kernel
  rw [h] at hrows ⊢
  obtain ⟨-, hstands⟩ := hledger ["ledger".toList] [0x23] (by decide +kernel) (by decide +kernel)
  rw [hstands, hrows]

/-- A path that ends in two dots leads nowhere while the directory before them is missing. A call
that makes that directory finds the path taken and says that the ledger stands, where there is only
a directory and no file at all. -/
theorem makeAll_content_dotted : ∃ t',
    makeAll ⟨["m".toList, dotDot]⟩ [.create] ⟨[], []⟩ = ⟨[(.create, .ok false)], t'⟩ ∧
    t'.isDirectory ⟨["m".toList, dotDot]⟩ = true ∧
    ∀ place content, t'.get? place ≠ some (.file content) := by
  refine ⟨⟨[(["m".toList], .directory)], []⟩, rfl, by decide +kernel, ?_⟩
  intro place content hfile
  unfold Tree.get? at hfile
  rw [List.lookup_cons] at hfile
  split_ifs at hfile
  · cases hfile
  · split at hfile
    · cases hfile
    · cases hfile

end BenchLedger.Ledger
