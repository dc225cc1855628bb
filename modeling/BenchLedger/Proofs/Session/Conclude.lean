import BenchLedger.Proofs.Ledger.Growth
import BenchLedger.Proofs.Transcript.RoundTrip
import BenchLedger.Session.Run

/-!
# What a run that succeeds files

`conclude_eq_ok` takes a run that succeeds apart once: what it measured is a function of its lines,
and its files come from three actions in a row. From these follow the two facts about its files that
hold whatever the tree was before: a wanted row was added to the ledger (`conclude_addsRow`), and a
transcript holds the lines at the end unless the record replaced it (`conclude_transcript`).
-/

namespace BenchLedger

open Capture Disk Text

/-! ## Records -/

theorem Record.content_isEmpty (record : Record) : record.content.isEmpty = false := rfl

theorem Record.keep_eq_ok {record : Record} {p : Path} {t t' : Tree}
    (h : record.keep p t = .ok () t') : ∃ place,
      t'.locate p = .ok place ∧ t.Filed t' p.above [place] ∧
      (t'.get? place = some (.file record.content) ∨
        t.get? place = some .sink ∧ t'.get? place = some .sink) := by
  unfold Record.keep at h
  obtain ⟨_, t₁, hready, h⟩ := bind_eq_ok h
  have hfiled := Filing.makeReady_eq_ok hready
  cases hreplaced : t₁.replace p record.content with
  | error cause =>
    simp only [hreplaced] at h
    cases h
  | ok t₂ =>
    simp only [hreplaced] at h
    cases h
    obtain ⟨place, e, hwrote, hcases⟩ := Tree.replace_eq_ok hreplaced
    have hafter := hwrote.after hfiled
    refine ⟨place, hafter.leads, hafter.filed, ?_⟩
    rw [hafter.stands]
    rcases hcases with ⟨-, rfl⟩ | ⟨old, hold, hwrite⟩
    · exact .inl rfl
    · rw [record.content_isEmpty] at hwrite
      cases old with
      | file content =>
        cases hwrite
        exact .inl rfl
      | sink =>
        cases hwrite
        have hbefore : t.get? place = t₁.get? place :=
          hfiled.changes.kept_back List.not_mem_nil (by simp [hold])
        exact .inr ⟨hbefore.trans hold, rfl⟩
      | full | directory | barren => cases hwrite

theorem Record.keep_eq_error {record : Record} {p : Path} {t t' : Tree} {e : FilingError}
    (h : record.keep p t = .error e t') : t.Filed t' p.above [] := by
  unfold Record.keep at h
  rcases bind_eq_error h with hready | ⟨_, t₁, hready, h⟩
  · exact Filing.makeReady_eq_error hready
  · cases hreplaced : t₁.replace p record.content with
    | error cause =>
      simp only [hreplaced] at h
      cases h
      exact Filing.makeReady_eq_ok hready
    | ok t₂ =>
      simp only [hreplaced] at h
      cases h

namespace Run

variable {o : Outcome} {r : Request} {clock : Clock} {w w' : World} {result : Result}

/-! ## The three actions -/

theorem file_eq_ok {α : Type} {name : FilingError → RunError} {action : Filing α} {a : α}
    (h : file name action w = .ok a w') : action w.tree = .ok a w'.tree := by
  unfold file at h
  cases haction : action w.tree with
  | ok b t =>
    rw [haction] at h
    cases h
    rfl
  | error e t =>
    rw [haction] at h
    cases h

theorem file_eq_error {α : Type} {name : FilingError → RunError} {action : Filing α} {e : RunError}
    (h : file name action w = .error e w') :
    ∃ cause, e = name cause ∧ action w.tree = .error cause w'.tree := by
  unfold file at h
  cases haction : action w.tree with
  | ok b t =>
    rw [haction] at h
    cases h
  | error cause t =>
    rw [haction] at h
    cases h
    exact ⟨cause, rfl, rfl⟩

theorem keepTranscript_eq_ok {transcript : Option Path}
    (h : keepTranscript o r clock w = .ok transcript w') :
    ((r.save ∧ r.replay.isNone) ∧ ∃ p, transcript = some p ∧
      Transcript.keep r.settings.captures o.lines r.label clock.started w.tree = .ok p w'.tree) ∨
    (¬(r.save ∧ r.replay.isNone) ∧ transcript = none ∧ w' = w) := by
  unfold keepTranscript at h
  split_ifs at h with hwanted
  · obtain ⟨p, w₁, hkeep, h⟩ := bind_eq_ok h
    cases h
    exact .inl ⟨hwanted, p, rfl, file_eq_ok hkeep⟩
  · cases h
    exact .inr ⟨hwanted, rfl, rfl⟩

theorem keepTranscript_eq_error {e : RunError} (h : keepTranscript o r clock w = .error e w') :
    (r.save ∧ r.replay.isNone) ∧ ∃ cause, e = .transcriptNotSaved cause ∧
      Transcript.keep r.settings.captures o.lines r.label clock.started w.tree =
        .error cause w'.tree := by
  unfold keepTranscript at h
  split_ifs at h with hwanted
  · rcases bind_eq_error h with hkeep | ⟨p, w₁, -, h⟩
    · exact ⟨hwanted, file_eq_error hkeep⟩
    · cases h
  · cases h

theorem updateLedger_eq_ok {s : Summary} (h : updateLedger s r clock w = .ok () w') :
    (r.save ∧ Ledger.add r.settings.ledger s r.label clock.filed w.tree = .ok () w'.tree) ∨
    (¬r.save ∧ w' = w) := by
  unfold updateLedger at h
  split_ifs at h with hwanted
  · exact .inl ⟨hwanted, file_eq_ok h⟩
  · cases h
    exact .inr ⟨hwanted, rfl⟩

theorem updateLedger_eq_error {s : Summary} {e : RunError}
    (h : updateLedger s r clock w = .error e w') :
    r.save ∧ ∃ cause, e = .ledgerNotUpdated cause ∧
      Ledger.add r.settings.ledger s r.label clock.filed w.tree = .error cause w'.tree := by
  unfold updateLedger at h
  split_ifs at h with hwanted
  · exact ⟨hwanted, file_eq_error h⟩
  · cases h

theorem keepRecord_eq_ok {s : Summary} (h : keepRecord o s r clock w = .ok () w') :
    (∃ p, r.record = some p ∧ (recordOf o s r clock).keep p w.tree = .ok () w'.tree) ∨
    (r.record = none ∧ w' = w) := by
  unfold keepRecord at h
  cases hrecord : r.record with
  | none =>
    rw [hrecord] at h
    cases h
    exact .inr ⟨rfl, rfl⟩
  | some p =>
    rw [hrecord] at h
    exact .inl ⟨p, rfl, file_eq_ok h⟩

theorem keepRecord_eq_error {s : Summary} {e : RunError}
    (h : keepRecord o s r clock w = .error e w') : ∃ p, r.record = some p ∧
      ∃ cause, e = .recordNotWritten cause ∧
        (recordOf o s r clock).keep p w.tree = .error cause w'.tree := by
  unfold keepRecord at h
  cases hrecord : r.record with
  | none =>
    rw [hrecord] at h
    cases h
  | some p =>
    rw [hrecord] at h
    exact ⟨p, rfl, file_eq_error h⟩

theorem keepTranscript_live {transcript : Option Path} (hsave : r.save = true)
    (hlive : r.replay = none) (h : keepTranscript o r clock w = .ok transcript w') :
    ∃ p, transcript = some p ∧
      Transcript.keep r.settings.captures o.lines r.label clock.started w.tree = .ok p w'.tree := by
  rcases keepTranscript_eq_ok h with ⟨-, hkept⟩ | ⟨hunwanted, -⟩
  · exact hkept
  · exact absurd ⟨hsave, by rw [hlive]; rfl⟩ hunwanted

theorem keepTranscript_changes {transcript : Option Path}
    (h : keepTranscript o r clock w = .ok transcript w') : ∃ written,
      w.tree.Changes w'.tree written ∧ ∀ place ∈ written,
        ∃ name, Transcript.IsTextName name ∧ place.getLast? = some name := by
  rcases keepTranscript_eq_ok h with ⟨-, p, -, hkept⟩ | ⟨-, -, rfl⟩
  · obtain ⟨place, name, -, -, hwrote, hname, hlast⟩ := Transcript.keep_eq_ok hkept
    refine ⟨[place], hwrote.filed.changes, fun other hother => ?_⟩
    rw [List.mem_singleton.1 hother]
    exact ⟨name, hname, hlast⟩
  · exact ⟨[], .refl _, fun place hplace => absurd hplace List.not_mem_nil⟩

theorem updateLedger_saved {s : Summary} (hsave : r.save = true)
    (h : updateLedger s r clock w = .ok () w') : ∃ place,
      w'.tree.locate r.settings.ledger = .ok place ∧
      w.tree.Filed w'.tree r.settings.ledger.above [place] ∧
      Ledger.Grew (Ledger.row s r.label clock.filed) (w.tree.get? place) (w'.tree.get? place) := by
  rcases updateLedger_eq_ok h with ⟨-, hadded⟩ | ⟨hunwanted, -⟩
  · exact Ledger.add_eq_ok hadded
  · exact absurd hsave hunwanted

theorem keepRecord_changes {s : Summary} (h : keepRecord o s r clock w = .ok () w') :
    ∃ written, w.tree.Changes w'.tree written ∧ ∀ place ∈ written,
      ∃ q, r.record = some q ∧ w'.tree.locate q = .ok place := by
  rcases keepRecord_eq_ok h with ⟨q, hq, hkept⟩ | ⟨-, rfl⟩
  · obtain ⟨place, hleads, hfiled, -⟩ := Record.keep_eq_ok hkept
    refine ⟨[place], hfiled.changes, fun other hother => ⟨q, hq, ?_⟩⟩
    rw [List.mem_singleton.1 hother]
    exact hleads
  · exact ⟨[], .refl _, fun place hplace => absurd hplace List.not_mem_nil⟩

theorem ledger_getLast? {s : Settings} {t : Tree} {place : Location}
    (h : t.locate s.ledger = .ok place) :
    place.getLast? = some "PERFORMANCE_TRACKING.md".toList :=
  Tree.getLast?_of_locate h (Path.getLast?_body_join _ _) (by decide)

theorem ledger_ne_of_isTextName {s : Settings} {t : Tree} {ledger place : Location} {name : Name}
    (hledger : t.locate s.ledger = .ok ledger) (hname : Transcript.IsTextName name)
    (hplace : place.getLast? = some name) : ledger ≠ place := by
  rintro rfl
  rw [ledger_getLast? hledger, Option.some.injEq] at hplace
  exact hname.ne (by decide) hplace.symm

/-! ## Runs that succeed -/

/-- A run that succeeds had lines, its measurements depend only on these, and its files are those of
its three actions. -/
theorem conclude_eq_ok (h : conclude o r clock w = .ok result w') :
    o.lines ≠ [] ∧ result.metrics = Metrics.ofLines o.lines ∧
    result.summary = Summary.ofMetrics (Metrics.ofLines o.lines) ∧
    result.exit =
      (if (Metrics.ofLines o.lines).markers.failure then .deviceFailed else .success) ∧
    ∃ w₀ w₁ w₂ w₃, w₀.tree = w.tree ∧ keepTranscript o r clock w₀ = .ok result.transcript w₁ ∧
      updateLedger result.summary r clock w₁ = .ok () w₂ ∧
      keepRecord o result.summary r clock w₂ = .ok () w₃ ∧ w'.tree = w₃.tree ∧
      w₀.console = w.console.printLine (Report.text result.summary) ∧
      w'.console =
        (if (Metrics.ofLines o.lines).markers.failure then
          w₃.console.printLine "\nWARNING: Failure marker detected! Check the capture."
        else w₃.console) := by
  unfold conclude at h
  split_ifs at h with hnil
  · obtain ⟨_, _, hthrow, -⟩ := bind_eq_ok h
    cases hthrow
  · obtain ⟨_, w₀, hprint, h⟩ := bind_eq_ok h
    obtain ⟨transcript, w₁, hkeep, h⟩ := bind_eq_ok h
    obtain ⟨_, w₂, hledger, h⟩ := bind_eq_ok h
    obtain ⟨_, w₃, hrecord, h⟩ := bind_eq_ok h
    obtain ⟨htree, hconsole⟩ : w₀.tree = w.tree ∧ w₀.console = w.console.printLine
        (Report.text (Summary.ofMetrics (Metrics.ofLines o.lines))) := by
      cases hprint
      exact ⟨rfl, rfl⟩
    refine ⟨hnil, ?_⟩
    split_ifs at h ⊢ with hfailure
    · obtain ⟨_, w₄, hprint', h⟩ := bind_eq_ok h
      cases hprint'
      cases h
      exact ⟨rfl, rfl, rfl, w₀, w₁, w₂, w₃, htree, hkeep, hledger, hrecord, rfl, hconsole, rfl⟩
    · cases h
      exact ⟨rfl, rfl, rfl, w₀, w₁, w₂, _, htree, hkeep, hledger, hrecord, rfl, hconsole, rfl⟩

theorem conclude_nil (hlines : o.lines = []) : conclude o r clock w = .error .noData w := by
  unfold conclude
  rw [if_pos hlines]
  rfl

theorem conclude_eq_error {e : RunError} (hlines : o.lines ≠ [])
    (h : conclude o r clock w = .error e w') :
    ∃ w₀, w₀.tree = w.tree ∧ (keepTranscript o r clock w₀ = .error e w' ∨
      ∃ transcript w₁, keepTranscript o r clock w₀ = .ok transcript w₁ ∧
        (updateLedger (Summary.ofMetrics (Metrics.ofLines o.lines)) r clock w₁ = .error e w' ∨
          ∃ w₂, updateLedger (Summary.ofMetrics (Metrics.ofLines o.lines)) r clock w₁ = .ok () w₂ ∧
            keepRecord o (Summary.ofMetrics (Metrics.ofLines o.lines)) r clock w₂ =
              .error e w')) := by
  unfold conclude at h
  rw [if_neg hlines] at h
  rcases bind_eq_error h with hprint | ⟨_, w₀, hprint, h⟩
  · cases hprint
  have htree : w₀.tree = w.tree := by
    cases hprint
    rfl
  refine ⟨w₀, htree, ?_⟩
  rcases bind_eq_error h with hkeep | ⟨transcript, w₁, hkeep, h⟩
  · exact .inl hkeep
  refine .inr ⟨transcript, w₁, hkeep, ?_⟩
  rcases bind_eq_error h with hledger | ⟨_, w₂, hledger, h⟩
  · exact .inl hledger
  refine .inr ⟨w₂, hledger, ?_⟩
  rcases bind_eq_error h with hrecord | ⟨_, w₃, hrecord, h⟩
  · exact hrecord
  -- Once everything is filed, nothing fails any more.
  split_ifs at h
  · rcases bind_eq_error h with hprint' | ⟨_, _, _, h⟩
    · cases hprint'
    · cases h
  · cases h

/-! ## The ledger and the transcript at the end -/

/-- Between two trees a row was added to the ledger of a request: in some tree on the way the ledger
had grown by it, and what stood in that tree still stands at the end, but for the record. -/
def AddsRow (r : Request) (before after : Tree) (row : List Char) : Prop :=
  ∃ filed : Tree, (∃ place, filed.locate r.settings.ledger = .ok place ∧
      Ledger.Grew row (before.get? place) (filed.get? place)) ∧
    ∀ place e, filed.get? place = some e → after.get? place = some e ∨
      ∃ q, r.record = some q ∧ after.locate q = .ok place

theorem conclude_addsRow (hsave : r.save = true) (h : conclude o r clock w = .ok result w') :
    AddsRow r w.tree w'.tree (Ledger.row result.summary r.label clock.filed) := by
  obtain ⟨-, -, -, -, w₀, w₁, w₂, w₃, hbefore, hkeep, hledger, hrecord, hafter, -⟩ :=
    conclude_eq_ok h
  obtain ⟨kept, hkept, hnames⟩ := keepTranscript_changes hkeep
  obtain ⟨place, hleads, -, hgrew⟩ := updateLedger_saved hsave hledger
  obtain ⟨recorded, hrecorded, hplaces⟩ := keepRecord_changes hrecord
  rw [hbefore] at hkept
  rw [hafter]
  refine ⟨w₂.tree, ⟨place, hleads, ?_⟩, fun other e he => ?_⟩
  · have hother : place ∉ kept := by
      intro hmem
      obtain ⟨name, hname, hlast⟩ := hnames place hmem
      exact ledger_ne_of_isTextName hleads hname hlast rfl
    rw [hkept.kept_back hother hgrew.ne_directory]
    exact hgrew
  · by_cases hmem : other ∈ recorded
    · exact .inr (hplaces other hmem)
    · exact .inl (hrecorded.kept hmem he)

/-- The transcript of a live run that succeeds holds its lines at the end, unless its record was
written over it. -/
theorem conclude_transcript (hlines : Emitted o.lines) (hsave : r.save = true)
    (hlive : r.replay = none) (h : conclude o r clock w = .ok result w')
    (hrecord : ∀ q p, r.record = some q → result.transcript = some p →
      w'.tree.locate q ≠ w'.tree.locate p) :
    ∃ p, result.transcript = some p ∧ Transcript.read? p w'.tree = .ok o.lines := by
  obtain ⟨-, -, -, -, w₀, w₁, w₂, w₃, hbefore, hkeep, hledger, hkeepRecord, hafter,
    -⟩ :=
    conclude_eq_ok h
  obtain ⟨p, htranscript, hkept⟩ := keepTranscript_live hsave hlive hkeep
  obtain ⟨place, name, -, -, hwrote, hname, hlast⟩ := Transcript.keep_eq_ok hkept
  obtain ⟨ledger, hledgerLeads, hledgerFiled, -⟩ := updateLedger_saved hsave hledger
  obtain ⟨recorded, hrecorded, hplaces⟩ := keepRecord_changes hkeepRecord
  have hotherThanLedger : place ∉ [ledger] := by
    rw [List.mem_singleton]
    exact (ledger_ne_of_isTextName hledgerLeads hname hlast).symm
  have hleads : w'.tree.locate p = .ok place := by
    rw [hafter]
    exact hrecorded.locate (hledgerFiled.changes.locate hwrote.leads)
  have hotherThanRecord : place ∉ recorded := by
    intro hmem
    obtain ⟨q, hq, hqleads⟩ := hplaces place hmem
    rw [← hafter] at hqleads
    exact hrecord q p hq htranscript (hqleads.trans hleads.symm)
  have hstands : w'.tree.get? place = some (.file (Transcript.content o.lines)) := by
    rw [hafter]
    exact hrecorded.kept hotherThanRecord (hledgerFiled.changes.kept hotherThanLedger hwrote.stands)
  refine ⟨p, htranscript, ?_⟩
  rw [Transcript.read?, Tree.read, hleads]
  simp only [hstands, Except.map, Transcript.linesOf_content hlines]

end Run

end BenchLedger
