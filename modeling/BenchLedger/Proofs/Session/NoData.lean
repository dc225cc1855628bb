import BenchLedger.CommandLine.Program
import BenchLedger.Proofs.Session.Console
import BenchLedger.Proofs.Session.Outputs
import BenchLedger.Proofs.Session.Ports
import BenchLedger.Proofs.Session.Replay

/-!
# Runs without data

A run has its lines before it files anything (`keepsTree_source`), so one that fails for want of
data leaves no trace in the tree. In replay mode such a failure says something about the transcript
as a whole: it is blank.
-/

namespace BenchLedger

/-- A failure for want of data: there was no device, no transcript, or nothing that came of it. -/
def RunError.LacksData : RunError → Prop
  | .noPort _ | .noConnection _ | .unreadable _ _ | .noData => True
  | .transcriptNotSaved _ | .ledgerNotUpdated _ | .recordNotWritten _ => False

theorem RunError.eq_noData_of_chain {e : RunError} (h : e.chain = ["No data captured!"]) :
    e = .noData := by
  cases e with
  | noData => rfl
  | noPort | noConnection | unreadable | transcriptNotSaved | ledgerNotUpdated | recordNotWritten =>
    rw [chain, List.cons.injEq] at h
    exact absurd h.1 (by simp [String.ext_iff])

theorem Output.not_lacksData_error (output : Output) (cause : FilingError) :
    ¬(output.error cause).LacksData := by
  intro h
  cases output with
  | transcript | ledger | record => exact h

namespace Run

open Capture CommandLine Disk Text

/-! ## The source of the lines -/

/-- Brings the lines that a request asks for. -/
def source (ports : Ports) (r : Request) (clock : Clock) : Run Outcome :=
  match r.replay with
  | some p => replay p clock
  | none => capture ports r.settings

theorem fulfil_eq (ports : Ports) (r : Request) (clock : Clock) :
    fulfil ports r clock = source ports r clock >>= fun o => conclude o r clock := by
  unfold fulfil source
  cases r.replay <;> rfl

/-- An action leaves the tree as it is, whether or not it succeeds. -/
def KeepsTree {α : Type} (action : Run α) : Prop :=
  ∀ w, (apartFromConsole (action w)).2 = w.tree

section actions

variable {α β : Type} {w w' : World}

theorem KeepsTree.of_ok {action : Run α} (h : KeepsTree action) {a : α}
    (haction : action w = .ok a w') : w'.tree = w.tree := by
  have hkept := h w
  rw [haction] at hkept
  exact hkept

theorem KeepsTree.of_error {action : Run α} (h : KeepsTree action) {e : RunError}
    (haction : action w = .error e w') : w'.tree = w.tree := by
  have hkept := h w
  rw [haction] at hkept
  exact hkept

theorem keepsTree_pure (a : α) : KeepsTree (pure a) := fun _ => rfl

theorem keepsTree_throw (e : RunError) : KeepsTree (throw e : Run α) := fun _ => rfl

theorem keepsTree_printLine (text : String) : KeepsTree (printLine text) := fun _ => rfl

theorem KeepsTree.bind {action : Run α} {next : α → Run β} (h : KeepsTree action)
    (hnext : ∀ a, KeepsTree (next a)) : KeepsTree (action >>= next) := by
  intro w
  cases hresult : (action >>= next) w with
  | ok b w' =>
    obtain ⟨a, w₁, haction, hlater⟩ := bind_eq_ok hresult
    show w'.tree = w.tree
    rw [(hnext a).of_ok hlater, h.of_ok haction]
  | error e w' =>
    show w'.tree = w.tree
    rcases bind_eq_error hresult with haction | ⟨a, w₁, haction, hlater⟩
    · exact h.of_error haction
    · rw [(hnext a).of_error hlater, h.of_ok haction]

end actions

variable (ports : Ports) (r : Request) (clock : Clock)

theorem keepsTree_listen (script : Script) (s : Settings) : KeepsTree (listen script s) :=
  fun _ => rfl

theorem keepsTree_capture (s : Settings) : KeepsTree (capture ports s) := by
  unfold capture
  cases ports.find s.portsToTry with
  | error e => exact fun _ => rfl
  | ok port =>
    apply (keepsTree_pure port).bind
    intro port
    dsimp only
    cases ports.connect port with
    | error e =>
      split_ifs
      · exact (keepsTree_printLine _).bind fun _ => keepsTree_throw _
      · exact keepsTree_throw _
    | ok script =>
      split_ifs
      · exact (keepsTree_printLine _).bind fun _ => keepsTree_listen script s
      · exact keepsTree_listen script s

theorem keepsTree_replay (p : Path) : KeepsTree (replay p clock) := by
  intro w
  unfold replay
  cases Transcript.read? p w.tree with
  | ok lines => rfl
  | error cause => rfl

theorem keepsTree_source : KeepsTree (source ports r clock) := by
  unfold source
  cases r.replay with
  | none => exact keepsTree_capture ports r.settings
  | some p => exact keepsTree_replay clock p

/-! ## How a run comes to have no data -/

variable {ports r clock} {w w' : World}

theorem conclude_lacksData {o : Outcome} {e : RunError} (h : conclude o r clock w = .error e w')
    (hlacks : e.LacksData) : o.lines = [] := by
  by_contra hlines
  obtain ⟨-, failed, -, -, -, cause, -, -, rfl, -⟩ := conclude_steps_error hlines h
  exact failed.not_lacksData_error cause hlacks

theorem source_of_none_opens (hlive : r.replay = none)
    (hports : ∀ port ∈ r.settings.portsToTry, (ports port).isOk = false) :
    source ports r clock w = .error (.noPort (.noneOpens r.settings.portsToTry)) w := by
  unfold source
  rw [hlive]
  exact capture_of_find_error (Ports.find_eq_error_iff.2 ⟨hports, rfl⟩) w

theorem source_of_read_error {p : Path} {cause : Disk.Error} (hreplay : r.replay = some p)
    (hread : w.tree.read p = .error cause) :
    source ports r clock w = .error (.unreadable p cause) w := by
  unfold source
  simp only [hreplay, replay, Transcript.read?, hread, Except.map]

theorem source_of_read {p : Path} {bytes : List UInt8} (hreplay : r.replay = some p)
    (hread : w.tree.read p = .ok bytes) :
    source ports r clock w = .ok ⟨Assembler.linesOf bytes, clock.reading, false⟩ w := by
  unfold source
  simp only [hreplay, replay, Transcript.read?, hread, Except.map]

theorem fulfil_of_source_error {e : RunError} (h : source ports r clock w = .error e w') :
    fulfil ports r clock w = .error e w' := by
  rw [fulfil_eq]
  exact bind_of_error h _

theorem fulfil_of_source {o : Outcome} (h : source ports r clock w = .ok o w') :
    fulfil ports r clock w = conclude o r clock w' := by
  rw [fulfil_eq]
  exact bind_of_ok h _

theorem fulfil_lacksData {e : RunError} (h : fulfil ports r clock w = .error e w')
    (hlacks : e.LacksData) : w'.tree = w.tree := by
  cases hsource : source ports r clock w with
  | error e₁ w₁ =>
    rw [fulfil_of_source_error hsource] at h
    cases h
    exact (keepsTree_source ports r clock).of_error hsource
  | ok o w₁ =>
    rw [fulfil_of_source hsource] at h
    have hlines := conclude_lacksData h hlacks
    rw [conclude_nil hlines] at h
    cases h
    exact (keepsTree_source ports r clock).of_ok hsource

/-- **A run without data leaves no trace, and a replay has none exactly if its transcript is
blank.** A request that is rejected leaves the world as it is. A run that fails for want of data
leaves the tree as it is, and without lines nothing but that failure comes of a run. A live run
fails in this way if no port can be opened, and a replay if its transcript cannot be read. If it can
be read, the replay fails with the message that there is no data exactly if the text of the whole
transcript, in which U+FFFD stands for malformed bytes, consists of blank characters. -/
theorem no_data_no_trace (ports : Ports) (r : Request) (clock : Clock) (w : World) :
    (∀ rejection, r.rejection? = some rejection →
      perform r ports clock w = (⟨1, errorReport [rejection.message]⟩, w)) ∧
    (∀ e w', fulfil ports r clock w = .error e w' → e.LacksData → w'.tree = w.tree) ∧
    (∀ o, o.lines = [] → conclude o r clock w = .error .noData w) ∧
    (r.replay = none → (∀ port ∈ r.settings.portsToTry, (ports port).isOk = false) →
      fulfil ports r clock w = .error (.noPort (.noneOpens r.settings.portsToTry)) w) ∧
    ∀ p, r.replay = some p →
      (∀ cause, w.tree.read p = .error cause →
        fulfil ports r clock w = .error (.unreadable p cause) w) ∧
      ∀ bytes, w.tree.read p = .ok bytes →
        ((∃ e w', fulfil ports r clock w = .error e w' ∧ e.chain = ["No data captured!"]) ↔
          ∀ c ∈ Utf8.decode bytes, isBlank c = true) := by
  refine ⟨?_, ?_, ?_, ?_, ?_⟩
  · intro rejection hrejection
    unfold perform
    rw [hrejection]
  · intro e w'
    exact fulfil_lacksData
  · intro o
    exact conclude_nil
  · intro hlive hports
    exact fulfil_of_source_error (source_of_none_opens hlive hports)
  · intro p hreplay
    constructor
    · intro cause hread
      exact fulfil_of_source_error (source_of_read_error hreplay hread)
    · intro bytes hread
      rw [← linesOf_eq_nil_iff, fulfil_of_source (source_of_read hreplay hread)]
      constructor
      · rintro ⟨e, w', hfails, hchain⟩
        obtain rfl := RunError.eq_noData_of_chain hchain
        exact conclude_lacksData hfails trivial
      · intro hlines
        exact ⟨.noData, w, conclude_nil hlines, rfl⟩

/-- A tree in which `blank` holds a space, U+0085 and a line feed, and `broken` a byte that is no
text. -/
def withTranscripts : Tree :=
  { entries :=
      [(["blank".toList], .file [0x20, 0xC2, 0x85, 0x0A]), (["broken".toList], .file [0xFF])] }

/-- Ports of which none can be opened. -/
def closedPorts : Ports := fun _ => .error "no driver"

/-- A blank label is rejected, a live run without a port fails, a missing transcript cannot be read,
and a blank one has no data, while one malformed byte is data. -/
theorem no_data_no_trace_withTranscripts :
    perform { label := " " } closedPorts (midnight 16) ⟨withTranscripts, {}⟩ =
      (⟨1, errorReport ["Label cannot be empty"]⟩, ⟨withTranscripts, {}⟩) ∧
    (∃ e w', fulfil closedPorts {} (midnight 16) ⟨withTranscripts, {}⟩ = .error e w' ∧
      w'.tree = withTranscripts) ∧
    fulfil closedPorts { replay := some ⟨["none".toList]⟩ } (midnight 16) ⟨withTranscripts, {}⟩ =
      .error (.unreadable ⟨["none".toList]⟩ .notFound) ⟨withTranscripts, {}⟩ ∧
    (∃ e w', fulfil closedPorts { replay := some ⟨["blank".toList]⟩ } (midnight 16)
      ⟨withTranscripts, {}⟩ = .error e w' ∧ e.chain = ["No data captured!"]) ∧
    ¬∃ e w', fulfil closedPorts { replay := some ⟨["broken".toList]⟩ } (midnight 16)
      ⟨withTranscripts, {}⟩ = .error e w' ∧ e.chain = ["No data captured!"] := by
  have hclosed := (no_data_no_trace closedPorts {} (midnight 16) ⟨withTranscripts, {}⟩).2.2.2.1 rfl
    fun _ _ => rfl
  have hmissing := no_data_no_trace closedPorts { replay := some ⟨["none".toList]⟩ } (midnight 16)
    ⟨withTranscripts, {}⟩
  have hblank := no_data_no_trace closedPorts { replay := some ⟨["blank".toList]⟩ } (midnight 16)
    ⟨withTranscripts, {}⟩
  have hbroken := no_data_no_trace closedPorts { replay := some ⟨["broken".toList]⟩ } (midnight 16)
    ⟨withTranscripts, {}⟩
  refine ⟨?_, ?_, ?_, ?_, ?_⟩
  · exact (no_data_no_trace closedPorts { label := " " } _ _).1 .blankLabel (by decide)
  · exact ⟨_, _, hclosed, (no_data_no_trace closedPorts {} _ _).2.1 _ _ hclosed trivial⟩
  · exact (hmissing.2.2.2.2 _ rfl).1 .notFound (by decide +kernel)
  · apply ((hblank.2.2.2.2 _ rfl).2 [0x20, 0xC2, 0x85, 0x0A] (by decide +kernel)).2
    apply List.all_eq_true.1
    decide +kernel
  · rw [(hbroken.2.2.2.2 _ rfl).2 [0xFF] (by decide +kernel), ← List.all_eq_true]
    decide +kernel

end Run

end BenchLedger
