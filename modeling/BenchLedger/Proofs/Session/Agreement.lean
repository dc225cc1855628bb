import BenchLedger.Proofs.Session.Conclude
import BenchLedger.Proofs.Session.Replay
import BenchLedger.Proofs.Summary.Status

/-!
# All outputs of a run agree

A run that succeeds shows the status of its lines in every output that it writes, and it exits as a
failure, with a warning, exactly if this status is an error (`conclude_agrees`). The exit follows
the markers while the outputs follow the summary, so the agreement goes through `Status.ofLines`.
-/

namespace BenchLedger.Run

open Capture Disk

/-- The line that follows the report of a capture with the failure marker. -/
def warning : String := "\nWARNING: Failure marker detected! Check the capture."

/-- Everything that a completed run leaves shows the same status and no other. -/
structure Tells (status : Status) (r : Request) (clock : Clock) (w w' : World) (result : Result) :
    Prop where
  metrics : result.metrics.markers.failure = true ↔ status = .error
  summary : result.summary.status = status
  report : ∀ s : Status,
    Report.status? (Report.text result.summary).toList = some s.label.toList ↔ status = s
  row : r.save = true →
    AddsRow r w.tree w'.tree (Ledger.row result.summary r.label clock.filed) ∧
    ∀ s : Status, Ledger.lastCell? (Ledger.row result.summary r.label clock.filed) =
      some (' ' :: s.label.toList ++ [' ']) ↔ status = s
  record : ∀ p, r.record = some p → ∃ place, w'.tree.locate p = .ok place ∧
    (w'.tree.get? place = some .sink ∨ ∃ bytes, w'.tree.get? place = some (.file bytes) ∧
      ∀ s : Status, Record.status? bytes = some s.label.toList ↔ status = s)
  console : w.console.working = true → w'.console.written =
    w.console.written ++ (Report.text result.summary ++ "\n") ++
      (if status = .error then warning ++ "\n" else "")
  exit : result.exit = .deviceFailed ↔ status = .error
  code : result.exit.code = if status = .error then 2 else 0

variable {o : Outcome} {r : Request} {clock : Clock} {w w' : World} {result : Result}

/-! ## The console -/

theorem file_console {α : Type} {name : FilingError → RunError} {action : Filing α} {a : α}
    (h : file name action w = .ok a w') : w'.console = w.console := by
  unfold file at h
  cases haction : action w.tree with
  | ok b t =>
    rw [haction] at h
    cases h
    rfl
  | error e t =>
    rw [haction] at h
    cases h

theorem keepTranscript_console {transcript : Option Path}
    (h : keepTranscript o r clock w = .ok transcript w') : w'.console = w.console := by
  unfold keepTranscript at h
  split_ifs at h
  · obtain ⟨p, w₁, hkeep, h⟩ := bind_eq_ok h
    cases h
    exact file_console hkeep
  · cases h
    rfl

theorem updateLedger_console {s : Summary} (h : updateLedger s r clock w = .ok () w') :
    w'.console = w.console := by
  unfold updateLedger at h
  split_ifs at h
  · exact file_console h
  · cases h
    rfl

theorem keepRecord_console {s : Summary} (h : keepRecord o s r clock w = .ok () w') :
    w'.console = w.console := by
  unfold keepRecord at h
  cases hrecord : r.record with
  | none =>
    rw [hrecord] at h
    cases h
    rfl
  | some p =>
    rw [hrecord] at h
    exact file_console h

theorem conclude_written (hworking : w.console.working = true)
    (h : conclude o r clock w = .ok result w') :
    w'.console.written = w.console.written ++ (Report.text result.summary ++ "\n") ++
      (if (Metrics.ofLines o.lines).markers.failure then warning ++ "\n" else "") := by
  obtain ⟨-, -, -, -, w₀, w₁, w₂, w₃, -, hkeep, hledger, hrecord, -, hstart, hend⟩ :=
    conclude_eq_ok h
  have hsame : w₃.console = w.console.printLine (Report.text result.summary) := by
    rw [keepRecord_console hrecord, updateLedger_console hledger, keepTranscript_console hkeep,
      hstart]
  have hreport := Console.printLine_of_working hworking (Report.text result.summary)
  have hstill : (w.console.printLine (Report.text result.summary)).working = true := by
    rw [hreport]
    exact hworking
  rw [hend, hsame]
  split_ifs
  · rw [Console.printLine_of_working hstill, hreport]
    rfl
  · rw [hreport]
    exact String.append_empty.symm

/-! ## The record -/

theorem conclude_record {p : Path} (hp : r.record = some p)
    (h : conclude o r clock w = .ok result w') : ∃ place, w'.tree.locate p = .ok place ∧
      (w'.tree.get? place = some .sink ∨ ∃ bytes, w'.tree.get? place = some (.file bytes) ∧
        Record.status? bytes = some result.summary.status.label.toList) := by
  obtain ⟨-, -, -, -, w₀, w₁, w₂, w₃, -, -, -, hrecord, hafter, -⟩ := conclude_eq_ok h
  rcases keepRecord_eq_ok hrecord with ⟨q, hq, hkept⟩ | ⟨hnone, -⟩
  · obtain rfl : q = p := Option.some.inj (hq.symm.trans hp)
    obtain ⟨place, hleads, -, hstands⟩ := Record.keep_eq_ok hkept
    rw [hafter]
    refine ⟨place, hleads, ?_⟩
    rcases hstands with hfile | ⟨-, hsink⟩
    · exact .inr ⟨_, hfile, Record.status?_content _⟩
    · exact .inl hsink
  · rw [hp] at hnone
    cases hnone

/-! ## The agreement -/

theorem conclude_tells (h : conclude o r clock w = .ok result w') :
    Tells (Status.ofLines o.lines) r clock w w' result := by
  obtain ⟨-, hmetrics, hsummary, hexit, -⟩ := conclude_eq_ok h
  have hstatus : result.summary.status = Status.ofLines o.lines := by
    rw [hsummary]
    rfl
  have hfailure : (Metrics.ofLines o.lines).markers.failure = true ↔
      Status.ofLines o.lines = .error := Status.ofMarkers_eq_error.symm
  have hlabel (s : Status) : some result.summary.status.label.toList = some s.label.toList ↔
      Status.ofLines o.lines = s := by
    rw [hstatus, Option.some.injEq, Status.label_inj]
  refine ⟨?_, hstatus, fun s => ?_, fun hsave => ⟨conclude_addsRow hsave h, fun s => ?_⟩,
    fun p hp => ?_, fun hworking => ?_, ?_, ?_⟩
  · rw [hmetrics]
    exact hfailure
  · rw [Report.status?_text]
    exact hlabel s
  · rw [Ledger.lastCell?_row, Option.some.injEq, List.cons_append, List.cons_append,
      List.cons.injEq, List.append_cancel_right_eq, hstatus, Status.label_inj]
    simp
  · obtain ⟨place, hleads, hsink | ⟨bytes, hfile, htold⟩⟩ := conclude_record hp h
    · exact ⟨place, hleads, .inl hsink⟩
    · refine ⟨place, hleads, .inr ⟨bytes, hfile, fun s => ?_⟩⟩
      rw [htold]
      exact hlabel s
  · rw [conclude_written hworking h]
    simp only [hfailure]
  · rw [hexit]
    simp only [hfailure]
    split_ifs with herror <;> simp [herror]
  · rw [hexit]
    simp only [hfailure]
    split_ifs <;> rfl

/-- **All outputs of a run agree on failure.** A run that succeeds shows one status in all that it
leaves. This is an error exactly if some line contains the failure marker in any case, whether or
not there was a connection, and otherwise depends on whether some line reports a connection. A run
that succeeds on the same lines, in whatever order and however often each, shows the same. -/
theorem conclude_agrees (h : conclude o r clock w = .ok result w') : ∃ status,
    (status = .error ↔ ∃ line ∈ o.lines, IsFailure line) ∧
    (status = .connected ↔
      (∀ line ∈ o.lines, ¬IsFailure line) ∧ ∃ line ∈ o.lines, IsConnection line) ∧
    (status = .unknown ↔ ∀ line ∈ o.lines, ¬IsFailure line ∧ ¬IsConnection line) ∧
    Tells status r clock w w' result ∧
    ∀ o' r' clock' w₁ result' w₁', (∀ line, line ∈ o'.lines ↔ line ∈ o.lines) →
      conclude o' r' clock' w₁ = .ok result' w₁' → Tells status r' clock' w₁ w₁' result' := by
  refine ⟨Status.ofLines o.lines, Status.ofLines_eq_error, Status.ofLines_eq_connected,
    Status.ofLines_eq_unknown, conclude_tells h, ?_⟩
  intro o' r' clock' w₁ result' w₁' hsame h'
  rw [← Status.ofLines_eq_of_mem hsame]
  exact conclude_tells h'

theorem conclude_agrees_bothMarkers : ∃ result w',
    conclude ⟨["WiFi connected", "ASSERT Failed"], 0, false⟩ { label := "a|b" } (midnight 16)
      ⟨⟨[], []⟩, {}⟩ = .ok result w' ∧
    Tells .error { label := "a|b" } (midnight 16) ⟨⟨[], []⟩, {}⟩ w' result := by
  have hruns : ((conclude ⟨["WiFi connected", "ASSERT Failed"], 0, false⟩ { label := "a|b" }
      (midnight 16)).run' ⟨⟨[], []⟩, {}⟩).isSome := by decide +kernel
  obtain ⟨result, hresult⟩ := Option.isSome_iff_exists.1 hruns
  obtain ⟨w', h⟩ := run'_eq_some hresult
  obtain ⟨status, herror, -, -, htells, -⟩ := conclude_agrees h
  have hfailure : IsFailure "ASSERT Failed" := ⟨_, List.infix_refl _, by decide⟩
  have hstatus : status = .error := herror.2 ⟨"ASSERT Failed", by simp, hfailure⟩
  exact ⟨result, w', h, hstatus ▸ htells⟩

end BenchLedger.Run
