import BenchLedger.Proofs.Session.Outputs
import BenchLedger.Proofs.Session.Replay

/-!
# Histories of runs

Whatever runs are made one after another, and wherever they fail, a file only grows unless the
record of a run goes to its place (`after_grows`, `afterAll_grows`): the ledger by its rows, a
transcript not at all. A record replaces what its path leads to, so one that is asked to go to the
ledger deletes its rows (`after_deletes_ledger`).
-/

namespace BenchLedger.Run

open Capture Disk Output

/-- One of the runs of a history: what it captured, what was asked of it, and when. -/
structure Job where
  outcome : Outcome
  request : Request
  clock : Clock

/-- What a run leaves, whether or not it succeeds. -/
def Job.after (job : Job) (w : World) : World :=
  match conclude job.outcome job.request job.clock w with
  | .ok _ w' | .error _ w' => w'

def afterAll (jobs : List Job) (w : World) : World := jobs.foldl (fun w job => job.after w) w

theorem afterAll_snoc (jobs : List Job) (job : Job) (w : World) :
    afterAll (jobs ++ [job]) w = job.after (afterAll jobs w) := by
  simp [afterAll]

/-! ## What one run does to a file -/

section steps

variable {o : Outcome} {r : Request} {clock : Clock} {t t' : Tree} {output : Output}
  {place other : Location} {outputs : List Output} {places : List Location} {old : List UInt8}

theorem step_grows (h : Step o r clock t t' output other)
    (hfile : t.get? place = some (.file old))
    (hrecord : ∀ p, output = .record p → t'.locate p ≠ .ok place) :
    ∃ added, t'.get? place = some (.file (old ++ added)) ∧
      (t'.locate r.settings.ledger ≠ .ok place → added = []) := by
  by_cases hsame : other = place
  · subst hsame
    have hat := h.isAt
    have hturns := h.turns
    rw [hfile] at hturns
    cases output with
    | transcript => exact absurd hturns.1 (by simp)
    | ledger =>
      have hgrew : Ledger.Grew _ (some (.file old)) (t'.get? other) := hturns
      exact ⟨_, hgrew.eq_of_file, fun hledger => absurd hat hledger⟩
    | record p => exact absurd hat (hrecord p rfl)
  · refine ⟨[], ?_, fun _ => rfl⟩
    rw [List.append_nil]
    exact h.filed.changes.kept (by simpa using Ne.symm hsame) hfile

theorem steps_grow (h : Steps o r clock t outputs places t')
    (hfile : t.get? place = some (.file old))
    (hrecord : ∀ p, Output.record p ∈ outputs → t'.locate p ≠ .ok place) :
    ∃ added, t'.get? place = some (.file (old ++ added)) ∧
      (t'.locate r.settings.ledger ≠ .ok place → added = []) := by
  induction h generalizing old with
  | nil t => exact ⟨[], by rw [List.append_nil]; exact hfile, fun _ => rfl⟩
  | @cons t t₁ t' output other outputs places step steps ih =>
    have hchanges := steps.filed.changes
    obtain ⟨added, hadded, hledger⟩ := step_grows step hfile fun p hp hleads =>
      hrecord p (hp ▸ List.mem_cons_self) (hchanges.locate hleads)
    obtain ⟨more, hmore, hledger'⟩ := ih hadded fun p hp => hrecord p (List.mem_cons_of_mem _ hp)
    refine ⟨added ++ more, by rw [hmore, List.append_assoc], fun hother => ?_⟩
    have hnothing : added = [] := hledger fun hleads => hother (hchanges.locate hleads)
    rw [hnothing, hledger' hother, List.append_nil]

end steps

/-- What a run leaves, it leaves by writing some of its outputs and then at most making
directories. -/
theorem Job.after_steps (job : Job) (w : World) : ∃ outputs places t directories,
    outputs ⊆ job.request.outputs ∧
    Steps job.outcome job.request job.clock w.tree outputs places t ∧
    t.Filed (job.after w).tree directories [] := by
  unfold Job.after
  cases h : conclude job.outcome job.request job.clock w with
  | ok result w' =>
    obtain ⟨places, hsteps⟩ := conclude_steps h
    exact ⟨_, places, w'.tree, [], List.Subset.refl _, hsteps, .refl w'.tree⟩
  | error e w' =>
    by_cases hlines : job.outcome.lines = []
    · rw [conclude_nil hlines] at h
      cases h
      exact ⟨[], [], w.tree, [], List.nil_subset _, .nil w.tree, .refl w.tree⟩
    · obtain ⟨done, failed, left, places, t, cause, houtputs, -, -, hsteps, hfailed⟩ :=
        conclude_steps_error hlines h
      refine ⟨done, places, t, _, ?_, hsteps, hfailed⟩
      rw [houtputs]
      exact List.subset_append_left _ _

theorem mem_outputs_record {r : Request} {p : Path} (h : Output.record p ∈ r.outputs) :
    r.record = some p := by
  have hmem := r.outputs_sublist.subset h
  simpa using hmem

section jobs

variable {job : Job} {w : World} {place : Location} {old : List UInt8}

theorem after_locate {p : Path} (h : w.tree.locate p = .ok place) :
    (job.after w).tree.locate p = .ok place := by
  obtain ⟨outputs, places, t, directories, -, hsteps, hfiled⟩ := job.after_steps w
  exact hfiled.changes.locate (hsteps.filed.changes.locate h)

theorem after_grows (hfile : w.tree.get? place = some (.file old))
    (hrecord : ∀ p, job.request.record = some p → (job.after w).tree.locate p ≠ .ok place) :
    ∃ added, (job.after w).tree.get? place = some (.file (old ++ added)) ∧
      ((job.after w).tree.locate job.request.settings.ledger ≠ .ok place → added = []) := by
  obtain ⟨outputs, places, t, directories, hsub, hsteps, hfiled⟩ := job.after_steps w
  obtain ⟨added, hadded, hledger⟩ := steps_grow hsteps hfile fun p hp hleads =>
    hrecord p (mem_outputs_record (hsub hp)) (hfiled.changes.locate hleads)
  exact ⟨added, hfiled.changes.kept List.not_mem_nil hadded,
    fun hother => hledger fun hleads => hother (hfiled.changes.locate hleads)⟩

theorem ledger_notin_captures {s : Settings} {t : Tree} {here : Location}
    (hcaptures : t.locate s.captures = .ok here) (hwithin : here <+: place) :
    t.locate s.ledger ≠ .ok place := by
  intro hledger
  obtain ⟨base, rfl, rfl⟩ := Tree.locate_join hcaptures hledger (by decide) (by decide)
  rw [List.prefix_append_right_inj] at hwithin
  exact absurd hwithin (by decide)

end jobs

/-! ## Histories -/

/-- **Files only grow, and transcripts stay as they are, whatever runs are made.** A file to which
no record of a run goes still starts with all that it held, and the paths that led to it still do.
If each time it was in the directory of the transcripts, then nothing was added to it. -/
theorem afterAll_grows (w : World) (jobs : List Job) {place : Location} {old : List UInt8}
    (hfile : w.tree.get? place = some (.file old))
    (hrecord : ∀ before job p, before ++ [job] <+: jobs → job.request.record = some p →
      (afterAll (before ++ [job]) w).tree.locate p ≠ .ok place) :
    (∃ added, (afterAll jobs w).tree.get? place = some (.file (old ++ added))) ∧
    (∀ p, w.tree.locate p = .ok place → (afterAll jobs w).tree.locate p = .ok place) ∧
    ((∀ before job, before ++ [job] <+: jobs → ∃ here,
        (afterAll (before ++ [job]) w).tree.locate job.request.settings.captures = .ok here ∧
        here <+: place) →
      (afterAll jobs w).tree.get? place = some (.file old)) := by
  induction jobs using List.reverseRecOn with
  | nil => exact ⟨⟨[], by rw [List.append_nil]; exact hfile⟩, fun p hp => hp, fun _ => hfile⟩
  | append_singleton jobs job ih =>
    have hearlier {before : List Job} (h : before <+: jobs) : before <+: jobs ++ [job] :=
      h.trans (List.prefix_append _ _)
    obtain ⟨⟨added, hadded⟩, hpaths, hsame⟩ := ih fun before earlier p h =>
      hrecord before earlier p (hearlier h)
    have hlast : ∀ p, job.request.record = some p →
        (job.after (afterAll jobs w)).tree.locate p ≠ .ok place := by
      rw [← afterAll_snoc]
      exact fun p => hrecord jobs job p (List.prefix_refl _)
    rw [afterAll_snoc]
    refine ⟨?_, fun p hp => after_locate (hpaths p hp), fun hcaptures => ?_⟩
    · obtain ⟨more, hmore, -⟩ := after_grows hadded hlast
      exact ⟨added ++ more, by rw [hmore, List.append_assoc]⟩
    · have hbefore := hsame fun before earlier h => hcaptures before earlier (hearlier h)
      obtain ⟨more, hmore, hledger⟩ := after_grows hbefore hlast
      obtain ⟨here, hhere, hwithin⟩ := hcaptures jobs job (List.prefix_refl _)
      rw [afterAll_snoc] at hhere
      rw [hmore, hledger (ledger_notin_captures hhere hwithin), List.append_nil]

/-- The place of the ledger by default. -/
def ledgerPlace : Location := ["docs".toList, "PERFORMANCE_TRACKING.md".toList]

/-- A tree with a ledger that holds a single sharp. -/
def withLedger : Tree :=
  { entries := [(ledgerPlace, .file [0x23]), (["docs".toList], .directory)] }

/-- The capture of one line that is recorded at a path, if at all, and otherwise saved. -/
def oneLineJob (record : Option Path) : Job :=
  ⟨⟨["a"], 0, false⟩, { save := record.isNone, record }, midnight 16⟩

theorem afterAll_grows_twice : ∃ added,
    (afterAll [oneLineJob none, oneLineJob none] ⟨withLedger, {}⟩).tree.get? ledgerPlace =
      some (.file ([0x23] ++ added)) := by
  refine (afterAll_grows ⟨withLedger, {}⟩ [oneLineJob none, oneLineJob none] rfl ?_).1
  intro before job p hearlier hp
  have hmem : job ∈ [oneLineJob none, oneLineJob none] := hearlier.subset (by simp)
  obtain rfl : job = oneLineJob none := by simpa using hmem
  cases hp

/-- A run whose record goes to the ledger deletes all that the ledger held. -/
theorem after_deletes_ledger : ∃ new,
    withLedger.locate (oneLineJob (some ⟨ledgerPlace⟩)).request.settings.ledger = .ok ledgerPlace ∧
    withLedger.get? ledgerPlace = some (.file [0x23]) ∧
    ((oneLineJob (some ⟨ledgerPlace⟩)).after ⟨withLedger, {}⟩).tree.get? ledgerPlace =
      some (.file new) ∧
    ¬[0x23] <+: new := by
  have hruns : ((conclude (oneLineJob (some ⟨ledgerPlace⟩)).outcome
      (oneLineJob (some ⟨ledgerPlace⟩)).request
      (oneLineJob (some ⟨ledgerPlace⟩)).clock).run' ⟨withLedger, {}⟩).isSome := by decide +kernel
  have hleads : withLedger.locate ⟨ledgerPlace⟩ = .ok ledgerPlace := by decide +kernel
  obtain ⟨result, hresult⟩ := Option.isSome_iff_exists.1 hruns
  obtain ⟨w', h⟩ := run'_eq_some hresult
  have hafter : (oneLineJob (some ⟨ledgerPlace⟩)).after ⟨withLedger, {}⟩ = w' := by
    rw [Job.after, h]
  rw [hafter]
  obtain ⟨places, hsteps⟩ := conclude_steps h
  have houtputs : (oneLineJob (some ⟨ledgerPlace⟩)).request.outputs = [.record ⟨ledgerPlace⟩] := rfl
  rw [houtputs] at hsteps
  cases hsteps with
  | @cons _ t _ _ place _ places step steps =>
    cases steps
    have hplace : place = ledgerPlace := by
      have hat := step.isAt
      rw [Output.IsAt, step.filed.changes.locate hleads, Except.ok.injEq] at hat
      exact hat.symm
    subst hplace
    rcases step.turns with hstands | ⟨hsink, -⟩
    · -- The text of a record starts with a brace.
      refine ⟨_, by decide +kernel, rfl, hstands, fun hsharp => ?_⟩
      obtain ⟨rest, hrest⟩ := hsharp
      have hhead := congrArg List.head? hrest
      cases hhead
    · cases hsink

end BenchLedger.Run
