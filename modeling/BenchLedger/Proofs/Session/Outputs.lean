import BenchLedger.Proofs.Session.Conclude
import Mathlib.Data.List.Nodup

/-!
# The outputs of a run, one after another

A request wants up to three outputs, and a run writes them in a fixed order. `Steps` is that: each
step makes missing directories above its path, writes one place and nothing else. A run that
succeeds makes a step for every output that is wanted (`conclude_steps`). One that fails makes the
steps of the outputs before the one that failed, which itself at most made directories
(`conclude_steps_error`).

What a step brought to its place is still there at the end if no later step writes this place, and
of the three outputs only the record can be asked to go where another one goes
(`Request.outputs_apart`).
-/

namespace BenchLedger

open Capture Disk Text

inductive Output
  | transcript
  | ledger
  | record (p : Path)

/-- The outputs that are wanted, in the order in which they are written. -/
def Request.outputs (r : Request) : List Output :=
  (if r.save ∧ r.replay.isNone then [.transcript] else []) ++
    ((if r.save then [.ledger] else []) ++ (r.record.map .record).toList)

namespace Output

/-- The path that is made ready for an output. A transcript whose name is taken gets another name in
the same directory. -/
def path (r : Request) (clock : Clock) : Output → Path
  | .transcript => r.settings.captures.join ⟨[Transcript.name r.label clock.started]⟩
  | .ledger => r.settings.ledger
  | .record p => p

def error : Output → FilingError → RunError
  | .transcript => .transcriptNotSaved
  | .ledger => .ledgerNotUpdated
  | .record _ => .recordNotWritten

/-- A place is that of an output: a path of the output leads to it. -/
def IsAt (r : Request) (clock : Clock) (t : Tree) (place : Location) : Output → Prop
  | .transcript => ∃ attempts, ∃ p ∈ Transcript.candidates (Output.transcript.path r clock)
      (Transcript.name r.label clock.started) attempts, t.locate p = .ok place
  | .ledger => t.locate r.settings.ledger = .ok place
  | .record p => t.locate p = .ok place

/-- What an output makes of what stood at its place. -/
def Turns (o : Outcome) (r : Request) (clock : Clock) (before after : Option Entry) : Output → Prop
  | .transcript => before = none ∧ after = some (.file (Transcript.content o.lines))
  | .ledger => Ledger.Grew
      (Ledger.row (Summary.ofMetrics (Metrics.ofLines o.lines)) r.label clock.filed) before after
  | .record _ =>
    after = some
      (.file (Run.recordOf o (Summary.ofMetrics (Metrics.ofLines o.lines)) r clock).content) ∨
      before = some .sink ∧ after = some .sink

/-- Between two trees an output was written in full. -/
structure Written (o : Outcome) (r : Request) (clock : Clock) (t t' : Tree) (output : Output)
    (place : Location) : Prop where
  isAt : output.IsAt r clock t' place
  turns : output.Turns o r clock (t.get? place) (t'.get? place)

/-- An output was written, and all else that changed are new directories above its path. -/
structure Step (o : Outcome) (r : Request) (clock : Clock) (t t' : Tree) (output : Output)
    (place : Location) : Prop extends Written o r clock t t' output place where
  filed : t.Filed t' (output.path r clock).above [place]

/-- Outputs were written one after another, each at its place. -/
inductive Steps (o : Outcome) (r : Request) (clock : Clock) :
    Tree → List Output → List Location → Tree → Prop
  | nil (t : Tree) : Steps o r clock t [] [] t
  | cons {t t₁ t' : Tree} {output : Output} {place : Location} {outputs : List Output}
      {places : List Location} (step : Step o r clock t t₁ output place)
      (steps : Steps o r clock t₁ outputs places t') :
      Steps o r clock t (output :: outputs) (place :: places) t'

variable {o : Outcome} {r : Request} {clock : Clock} {t t₁ t' : Tree} {output : Output}
  {place : Location} {outputs outputs' : List Output} {places places' : List Location}

theorem IsAt.mono {written : List Location} (h : output.IsAt r clock t place)
    (hchanges : t.Changes t' written) : output.IsAt r clock t' place := by
  cases output with
  | transcript =>
    obtain ⟨attempts, p, hp, hleads⟩ := h
    exact ⟨attempts, p, hp, hchanges.locate hleads⟩
  | ledger => exact hchanges.locate h
  | record p => exact hchanges.locate h

theorem Written.mono {t₂ : Tree} {before after : List Location}
    (h : Written o r clock t₁ t₂ output place) (hbefore : t.Changes t₁ before)
    (hplace : place ∉ before) (hafter : t₂.Changes t' after) (hplace' : place ∉ after) :
    Written o r clock t t' output place := by
  refine ⟨h.isAt.mono hafter, ?_⟩
  have hturns := h.turns
  cases output with
  | transcript =>
    obtain ⟨hnone, hstands⟩ := hturns
    exact ⟨hbefore.none_back hnone, hafter.kept hplace' hstands⟩
  | ledger =>
    have hgrew : Ledger.Grew _ (t₁.get? place) (t₂.get? place) := hturns
    have hsame := hbefore.kept_back hplace hgrew.ne_directory
    obtain ⟨e, he⟩ := hgrew.exists_after
    show Ledger.Grew _ (t.get? place) (t'.get? place)
    rw [hsame, hafter.kept hplace' he, ← he]
    exact hgrew
  | record p =>
    rcases hturns with hstands | ⟨hsink, hstands⟩
    · exact .inl (hafter.kept hplace' hstands)
    · have hsame := hbefore.kept_back hplace (by simp [hsink])
      exact .inr ⟨hsame.trans hsink, hafter.kept hplace' hstands⟩

namespace Steps

theorem append (h : Steps o r clock t outputs places t₁)
    (h' : Steps o r clock t₁ outputs' places' t') :
    Steps o r clock t (outputs ++ outputs') (places ++ places') t' := by
  induction h with
  | nil t => exact h'
  | cons step steps ih => exact .cons step (ih h')

theorem singleton (h : Step o r clock t t' output place) :
    Steps o r clock t [output] [place] t' :=
  .cons h (.nil t')

theorem filed (h : Steps o r clock t outputs places t') :
    t.Filed t' (outputs.flatMap fun output => (output.path r clock).above) places := by
  induction h with
  | nil t => exact .refl t
  | cons step steps ih => exact step.filed.trans ih

theorem exists_isAt (h : Steps o r clock t outputs places t') {other : Location}
    (hmem : other ∈ places) : ∃ output ∈ outputs, output.IsAt r clock t' other := by
  induction h with
  | nil t => exact absurd hmem List.not_mem_nil
  | @cons t t₁ t' output place outputs places step steps ih =>
    rcases List.mem_cons.1 hmem with rfl | hmem
    · exact ⟨output, List.mem_cons_self, step.isAt.mono steps.filed.changes⟩
    · obtain ⟨output', hmem', hat⟩ := ih hmem
      exact ⟨output', List.mem_cons_of_mem output hmem', hat⟩

theorem nodup (h : Steps o r clock t outputs places t')
    (hapart : outputs.Pairwise fun output other =>
      ∀ place, output.IsAt r clock t' place → ¬other.IsAt r clock t' place) : places.Nodup := by
  induction h with
  | nil t => exact List.nodup_nil
  | @cons t t₁ t' output place outputs places step steps ih =>
    obtain ⟨hfirst, hrest⟩ := List.pairwise_cons.1 hapart
    refine List.nodup_cons.2 ⟨fun hmem => ?_, ih hrest⟩
    obtain ⟨other, hother, hat⟩ := steps.exists_isAt hmem
    exact hfirst other hother place (step.isAt.mono steps.filed.changes) hat

/-- Outputs that go to different places are all in place at the end, as seen from any tree before
in which these places were as they were at the start. -/
theorem written {t₀ : Tree} {before : List Location} (h : Steps o r clock t outputs places t')
    (hbefore : t₀.Changes t before) (hplaces : (before ++ places).Nodup) :
    List.Forall₂ (Written o r clock t₀ t') outputs places := by
  induction h generalizing before with
  | nil t => exact .nil
  | @cons t t₁ t' output place outputs places step steps ih =>
    have hsplit : before ++ place :: places = before ++ [place] ++ places := by simp
    obtain ⟨-, hlater, hdisjoint⟩ := List.nodup_append'.1 hplaces
    have hplace : place ∉ before := fun hmem => hdisjoint hmem List.mem_cons_self
    refine .cons ?_ (ih (hbefore.trans step.filed.changes) (hsplit ▸ hplaces))
    exact step.mono hbefore hplace steps.filed.changes (List.nodup_cons.1 hlater).1

end Steps

end Output

/-! ## Outputs that stand apart -/

section apart

variable {r : Request} {clock : Clock} {t : Tree} {place : Location}

theorem Settings.captures_endsIn (s : Settings) :
    s.captures.EndsIn "performance_captures".toList :=
  Path.endsIn_join s.docs (by decide) (by decide)

theorem Output.isAt_transcript (h : Output.transcript.IsAt r clock t place) :
    ∃ here name, t.locate r.settings.captures = .ok here ∧ Transcript.IsTextName name ∧
      place = here ++ [name] := by
  obtain ⟨attempts, p, hp, hleads⟩ := h
  obtain ⟨name, hname, rfl⟩ :=
    Transcript.eq_join_of_mem_candidates r.settings.captures_endsIn ⟨_, rfl⟩ hp
  obtain ⟨here, hhere, hplace⟩ :=
    Tree.locate_within r.settings.captures_endsIn hleads hname.isProper
  exact ⟨here, name, hhere, hname, hplace⟩

/-- The record, if one is wanted, leads neither to the ledger nor to a file in the directory of the
transcripts. -/
def Request.RecordApart (r : Request) (t : Tree) : Prop :=
  ∀ p place, r.record = some p → t.locate p = .ok place →
    t.locate r.settings.ledger ≠ .ok place ∧
    ∀ here name, t.locate r.settings.captures = .ok here → place ≠ here ++ [name]

theorem Request.recordApart_of_beside {name : Name}
    (hrecord : r.record = some (r.settings.docs.join ⟨[name]⟩))
    (hname : name.IsProper)
    (hother : name ≠ "PERFORMANCE_TRACKING.md".toList) (t : Tree) : r.RecordApart t := by
  intro p place hp hplace
  obtain rfl : r.settings.docs.join ⟨[name]⟩ = p := Option.some.inj (hrecord.symm.trans hp)
  refine ⟨fun hledger => ?_, fun here file hhere hsame => ?_⟩
  · obtain ⟨base, rfl, hsame⟩ := Tree.locate_join hplace hledger hname (by decide)
    exact hother (by simpa using hsame)
  · obtain ⟨base, rfl, rfl⟩ := Tree.locate_join hplace hhere hname (by decide)
    simpa using congrArg List.length hsame

theorem Output.transcript_apart_ledger (h : Output.transcript.IsAt r clock t place) :
    ¬Output.ledger.IsAt r clock t place := by
  intro hledger
  obtain ⟨here, name, -, hname, rfl⟩ := Output.isAt_transcript h
  exact Run.ledger_ne_of_isTextName hledger hname (by simp) rfl

theorem Request.outputs_sublist (r : Request) :
    r.outputs.Sublist (.transcript :: .ledger :: (r.record.map .record).toList) := by
  unfold Request.outputs
  split_ifs
  · exact List.Sublist.refl _
  · exact (List.sublist_cons_self _ _).cons_cons _
  · exact List.sublist_cons_self _ _
  · exact (List.sublist_cons_self _ _).trans (List.sublist_cons_self _ _)

/-- The outputs of a request stand apart from each other, except perhaps for the record. -/
theorem Request.outputs_apart (r : Request) (clock : Clock) (t : Tree) :
    r.outputs.Pairwise fun output other => (∀ p, other = .record p → r.RecordApart t) →
      ∀ place, output.IsAt r clock t place → ¬other.IsAt r clock t place := by
  refine List.Pairwise.sublist r.outputs_sublist (.cons ?_ (.cons ?_ ?_))
  · intro other hmem hrecord place htranscript hother
    rcases List.mem_cons.1 hmem with rfl | hmem
    · exact Output.transcript_apart_ledger htranscript hother
    · obtain ⟨p, hp, rfl⟩ := by simpa using hmem
      obtain ⟨here, name, hhere, -, hplace⟩ := Output.isAt_transcript htranscript
      exact (hrecord p rfl p place hp hother).2 here name hhere hplace
  · intro other hmem hrecord place hledger hother
    obtain ⟨p, hp, rfl⟩ := by simpa using hmem
    exact (hrecord p rfl p place hp hother).1 hledger
  · cases r.record with
    | none => exact .nil
    | some p => exact List.pairwise_singleton _ _

end apart

namespace Run

open Output

variable {o : Outcome} {r : Request} {clock : Clock} {w w' : World} {result : Result}

/-! ## The three actions -/

theorem keepTranscript_steps {transcript : Option Path}
    (h : keepTranscript o r clock w = .ok transcript w') : ∃ places,
      Steps o r clock w.tree (if r.save ∧ r.replay.isNone then [.transcript] else []) places
        w'.tree := by
  rcases keepTranscript_eq_ok h with ⟨hwanted, p, -, hkept⟩ | ⟨hunwanted, -, rfl⟩
  · obtain ⟨place, name, ⟨attempts, hmem⟩, hnone, hwrote, -⟩ := Transcript.keep_eq_ok hkept
    rw [if_pos hwanted]
    exact ⟨[place], .singleton ⟨⟨⟨attempts, p, hmem, hwrote.leads⟩, hnone, hwrote.stands⟩,
      hwrote.filed⟩⟩
  · rw [if_neg hunwanted]
    exact ⟨[], .nil _⟩

theorem updateLedger_steps
    (h : updateLedger (Summary.ofMetrics (Metrics.ofLines o.lines)) r clock w = .ok () w') :
    ∃ places, Steps o r clock w.tree (if r.save then [.ledger] else []) places w'.tree := by
  rcases updateLedger_eq_ok h with ⟨hwanted, hadded⟩ | ⟨hunwanted, rfl⟩
  · obtain ⟨place, hleads, hfiled, hgrew⟩ := Ledger.add_eq_ok hadded
    rw [if_pos hwanted]
    exact ⟨[place], .singleton ⟨⟨hleads, hgrew⟩, hfiled⟩⟩
  · rw [if_neg hunwanted]
    exact ⟨[], .nil _⟩

theorem keepRecord_steps
    (h : keepRecord o (Summary.ofMetrics (Metrics.ofLines o.lines)) r clock w = .ok () w') :
    ∃ places, Steps o r clock w.tree (r.record.map .record).toList places w'.tree := by
  rcases keepRecord_eq_ok h with ⟨p, hp, hkept⟩ | ⟨hnone, rfl⟩
  · obtain ⟨place, hleads, hfiled, hstands⟩ := Record.keep_eq_ok hkept
    rw [hp]
    exact ⟨[place], .singleton ⟨⟨hleads, hstands⟩, hfiled⟩⟩
  · rw [hnone]
    exact ⟨[], .nil _⟩

/-! ## Whole runs -/

theorem conclude_steps (h : conclude o r clock w = .ok result w') :
    ∃ places, Steps o r clock w.tree r.outputs places w'.tree := by
  obtain ⟨-, -, hsummary, -, w₀, w₁, w₂, w₃, hbefore, hkeep, hledger, hrecord, hafter, -⟩ :=
    conclude_eq_ok h
  rw [hsummary] at hledger hrecord
  obtain ⟨kept, hkept⟩ := keepTranscript_steps hkeep
  obtain ⟨added, hadded⟩ := updateLedger_steps hledger
  obtain ⟨recorded, hrecorded⟩ := keepRecord_steps hrecord
  rw [← hbefore, hafter]
  exact ⟨_, hkept.append (hadded.append hrecorded)⟩

/-- A run that had lines and fails writes the outputs before the one at which it fails. This one
changes no file, and the ones after it are not written: only directories above it are made. -/
theorem conclude_steps_error {e : RunError} (hlines : o.lines ≠ [])
    (h : conclude o r clock w = .error e w') : ∃ done failed left places t cause,
      r.outputs = done ++ failed :: left ∧ (∀ p, Output.record p ∉ done) ∧ e = failed.error cause ∧
      Steps o r clock w.tree done places t ∧ t.Filed w'.tree (failed.path r clock).above [] := by
  obtain ⟨w₀, hbefore, hfailed⟩ := conclude_eq_error hlines h
  rw [← hbefore]
  rcases hfailed with hkeep | ⟨transcript, w₁, hkeep, hfailed⟩
  · obtain ⟨hwanted, cause, rfl, hrefused⟩ := keepTranscript_eq_error hkeep
    refine ⟨[], .transcript, (if r.save then [.ledger] else []) ++ (r.record.map .record).toList,
      [], _, cause, ?_, fun p => List.not_mem_nil, rfl, .nil _, Transcript.keep_eq_error hrefused⟩
    rw [Request.outputs, if_pos hwanted]
    rfl
  obtain ⟨kept, hkept⟩ := keepTranscript_steps hkeep
  have hnoRecord (p : Path) : Output.record p ∉
      (if r.save ∧ r.replay.isNone then [Output.transcript] else []) := by
    split_ifs <;> simp
  rcases hfailed with hledger | ⟨w₂, hledger, hrecord⟩
  · obtain ⟨hwanted, cause, rfl, hrefused⟩ := updateLedger_eq_error hledger
    refine ⟨_, .ledger, (r.record.map .record).toList, kept, _, cause, ?_, hnoRecord, rfl, hkept,
      Ledger.add_eq_error hrefused⟩
    rw [Request.outputs, if_pos hwanted]
    rfl
  · obtain ⟨p, hp, cause, rfl, hrefused⟩ := keepRecord_eq_error hrecord
    obtain ⟨added, hadded⟩ := updateLedger_steps hledger
    refine ⟨_, .record p, [], kept ++ added, _, cause, ?_, fun q => ?_, rfl,
      hkept.append hadded, Record.keep_eq_error hrefused⟩
    · rw [Request.outputs, hp, List.append_assoc]
      rfl
    · rw [List.mem_append, not_or]
      refine ⟨hnoRecord q, ?_⟩
      split_ifs <;> simp

end Run

end BenchLedger
