import BenchLedger.Proofs.Session.Outputs
import BenchLedger.Proofs.Session.Replay

/-!
# What a run leaves behind

After a run that succeeds all its outputs are in place in full. After one that fails exactly those
before the first failure are, the output that failed changed no file, and none after it was tried.
Either way nothing else in the tree is different, but for directories above the paths that were
tried.
-/

namespace BenchLedger.Run

open Capture Disk Output

/-- **A run leaves what it wrote before it failed.** If it succeeds, every output that is wanted is
in place in full at the end, provided that the record was not asked to go where another one goes. If
it fails, the wanted outputs are those that were done, the one that failed, and those that were not
tried: the first are in place in full, and from there to the end at most directories above the path
of the second were made. All else that a run changes in the tree are missing directories above the
paths of the outputs that were tried. -/
theorem conclude_leaves {o : Outcome} (hlines : o.lines ≠ []) (r : Request) (clock : Clock)
    (w : World) :
    (∀ result w', conclude o r clock w = .ok result w' → r.RecordApart w'.tree →
      ∃ places, Steps o r clock w.tree r.outputs places w'.tree ∧
        List.Forall₂ (Written o r clock w.tree w'.tree) r.outputs places ∧
        w.tree.Filed w'.tree (r.outputs.flatMap fun output => (output.path r clock).above) places) ∧
    ∀ e w', conclude o r clock w = .error e w' →
      ∃ done failed left places t cause,
        r.outputs = done ++ failed :: left ∧ e = failed.error cause ∧
        Steps o r clock w.tree done places t ∧ t.Filed w'.tree (failed.path r clock).above [] ∧
        List.Forall₂ (Written o r clock w.tree w'.tree) done places ∧
        w.tree.Filed w'.tree
          ((done ++ [failed]).flatMap fun output => (output.path r clock).above) places := by
  constructor
  · intro result w' h hrecord
    obtain ⟨places, hsteps⟩ := conclude_steps h
    have hplaces : places.Nodup :=
      hsteps.nodup ((r.outputs_apart clock w'.tree).imp fun hother => hother fun _ _ => hrecord)
    exact ⟨places, hsteps, hsteps.written (.refl w.tree) (by simpa using hplaces), hsteps.filed⟩
  · intro e w' h
    obtain ⟨done, failed, left, places, t, cause, houtputs, hnoRecord, he, hsteps, hfailed⟩ :=
      conclude_steps_error hlines h
    have hplaces : places.Nodup := by
      have hdone := (List.pairwise_append.1 (houtputs ▸ r.outputs_apart clock t)).1
      refine hsteps.nodup (hdone.imp_of_mem fun _ hmem hother => hother fun p hp => ?_)
      exact absurd (hp ▸ hmem) (hnoRecord p)
    have hwritten := hsteps.written (.refl w.tree) (by simpa using hplaces)
    refine ⟨done, failed, left, places, t, cause, houtputs, he, hsteps, hfailed, ?_, ?_⟩
    · -- Making directories does not undo what was written.
      refine hwritten.imp fun output place h => ?_
      exact h.mono (.refl w.tree) List.not_mem_nil hfailed.changes List.not_mem_nil
    · have hfiled := hsteps.filed.trans hfailed
      simpa using hfiled

/-- A request for a record next to the ledger. -/
def recordingTo (name : Name) : Request := { record := some (({} : Settings).docs.join ⟨[name]⟩) }

/-- A run that can write its record leaves three outputs, and one whose record is to go where the
directory of the transcripts stands leaves those before the one that fails. -/
theorem conclude_leaves_oneLine :
    (∃ result w' places,
      conclude ⟨["a"], 0, false⟩ (recordingTo "out".toList) (midnight 16) ⟨⟨[], []⟩, {}⟩ =
        .ok result w' ∧
      List.Forall₂ (Written ⟨["a"], 0, false⟩ (recordingTo "out".toList) (midnight 16) ⟨[], []⟩
        w'.tree) (recordingTo "out".toList).outputs places) ∧
    ∃ e w' done failed left places,
      conclude ⟨["a"], 0, false⟩ (recordingTo "performance_captures".toList) (midnight 16)
        ⟨⟨[], []⟩, {}⟩ = .error e w' ∧
      (recordingTo "performance_captures".toList).outputs = done ++ failed :: left ∧
      List.Forall₂ (Written ⟨["a"], 0, false⟩ (recordingTo "performance_captures".toList)
        (midnight 16) ⟨[], []⟩ w'.tree) done places := by
  have hruns : ((conclude ⟨["a"], 0, false⟩ (recordingTo "out".toList) (midnight 16)).run'
      ⟨⟨[], []⟩, {}⟩).isSome := by decide +kernel
  have hfails : ((conclude ⟨["a"], 0, false⟩ (recordingTo "performance_captures".toList)
      (midnight 16)).run' ⟨⟨[], []⟩, {}⟩).isNone := by decide +kernel
  constructor
  · obtain ⟨result, hresult⟩ := Option.isSome_iff_exists.1 hruns
    obtain ⟨w', h⟩ := run'_eq_some hresult
    have hrecord := Request.recordApart_of_beside (r := recordingTo "out".toList) rfl (by decide)
      (by decide) w'.tree
    obtain ⟨places, -, hwritten, -⟩ := (conclude_leaves (by decide) _ _ _).1 result w' h hrecord
    exact ⟨result, w', places, h, hwritten⟩
  · obtain ⟨e, w', h⟩ := run'_eq_none hfails
    obtain ⟨done, failed, left, places, t, cause, houtputs, -, -, -, hwritten, -⟩ :=
      (conclude_leaves (by decide) _ _ _).2 e w' h
    exact ⟨e, w', done, failed, left, places, h, houtputs, hwritten⟩

end BenchLedger.Run
