import BenchLedger.Proofs.Session.NoData
import BenchLedger.Proofs.Summary.Status

/-!
# Exit statuses

A command line is refused, asks for information, or demands a run (`demand`). A run that is
demanded ends with the status of its markers if it completes (`Completes`) and else with 1, while a
command line that is refused has the status 2 of a failed device.
-/

namespace BenchLedger.CommandLine

open Capture Disk Run

/-- What a command line that is not refused demands. -/
inductive Demand
  | information (text : String)
  | run (r : Request)

/-- What a command line demands in an environment. -/
def demand (arguments : List String) (environment : String → Option String) :
    Except UsageError Demand :=
  match wish arguments with
  | .error e => .error e
  | .ok .version => .ok (.information versionText)
  | .ok .help => .ok (.information (helpText environment))
  | .ok (.run c) => (c.request environment).map .run

theorem run_eq (arguments : List String) (environment : String → Option String) (ports : Ports)
    (clock : Clock) (w : World) :
    run arguments environment ports clock w =
      match demand arguments environment with
      | .error e => (⟨2, "error: " ++ e.message ++ "\n"⟩, w)
      | .ok (.information text) => (⟨0, ""⟩, { w with console := w.console.printLine text })
      | .ok (.run r) => perform r ports clock w := by
  unfold run demand
  cases wish arguments with
  | error e => rfl
  | ok asked =>
    cases asked with
    | version | help => rfl
    | run c =>
      dsimp only
      cases c.request environment with
      | error e => rfl
      | ok r => rfl

/-- A run that is not rejected completes: lines come from its source, everything that is wanted of
them is reported and filed, and nothing fails. -/
def Completes (ports : Ports) (r : Request) (clock : Clock) (w : World) (o : Outcome) : Prop :=
  r.rejection? = none ∧ ∃ w₁ result w', source ports r clock w = .ok o w₁ ∧
    conclude o r clock w₁ = .ok result w'

section perform

variable {ports : Ports} {r : Request} {clock : Clock} {w : World}

theorem Completes.status {o : Outcome} (h : Completes ports r clock w o) :
    ((perform r ports clock w).1.status = 2 ∧ ∃ line ∈ o.lines, IsFailure line) ∨
    ((perform r ports clock w).1.status = 0 ∧ ∀ line ∈ o.lines, ¬IsFailure line) := by
  obtain ⟨hadmitted, w₁, result, w', hsource, hconclude⟩ := h
  obtain ⟨-, -, -, hexit, -⟩ := conclude_eq_ok hconclude
  unfold perform
  rw [hadmitted, fulfil_of_source hsource, hconclude]
  show (result.exit.code = 2 ∧ _) ∨ (result.exit.code = 0 ∧ _)
  rw [hexit]
  by_cases hfailure : (Metrics.ofLines o.lines).markers.failure = true
  · rw [if_pos hfailure]
    exact .inl ⟨rfl, failure_ofLines_iff.1 hfailure⟩
  · rw [if_neg hfailure]
    refine .inr ⟨rfl, fun line hline hreports => hfailure ?_⟩
    exact failure_ofLines_iff.2 ⟨line, hline, hreports⟩

theorem perform_cases (ports : Ports) (r : Request) (clock : Clock) (w : World) :
    ((perform r ports clock w).1.status = 1 ∧
      ((∃ rejection, r.rejection? = some rejection) ∨
        ∃ e w', fulfil ports r clock w = .error e w')) ∨
    ∃ o, Completes ports r clock w o := by
  cases hrejection : r.rejection? with
  | some rejection =>
    refine .inl ⟨?_, .inl ⟨rejection, rfl⟩⟩
    unfold perform
    rw [hrejection]
  | none =>
    cases hfulfil : fulfil ports r clock w with
    | error e w' =>
      refine .inl ⟨?_, .inr ⟨e, w', rfl⟩⟩
      unfold perform
      rw [hrejection, hfulfil]
    | ok result w' =>
      rw [fulfil_eq] at hfulfil
      obtain ⟨o, w₁, hsource, hconclude⟩ := bind_eq_ok hfulfil
      exact .inr ⟨o, hrejection, w₁, result, w', hsource, hconclude⟩

theorem perform_status_of_failure
    (h : (∃ rejection, r.rejection? = some rejection) ∨
      ∃ e w', fulfil ports r clock w = .error e w') : (perform r ports clock w).1.status = 1 := by
  unfold perform
  cases hrejection : r.rejection? with
  | some rejection => rfl
  | none =>
    rcases h with ⟨rejection, hrejected⟩ | ⟨e, w', hfails⟩
    · rw [hrejection] at hrejected
      cases hrejected
    · rw [hfails]

theorem perform_eq_two : (perform r ports clock w).1.status = 2 ↔
    ∃ o, Completes ports r clock w o ∧ ∃ line ∈ o.lines, IsFailure line := by
  constructor
  · intro h
    rcases perform_cases ports r clock w with ⟨hone, -⟩ | ⟨o, ho⟩
    · omega
    · rcases ho.status with ⟨-, hreports⟩ | ⟨hzero, -⟩
      · exact ⟨o, ho, hreports⟩
      · omega
  · rintro ⟨o, ho, line, hline, hreports⟩
    rcases ho.status with ⟨htwo, -⟩ | ⟨-, hnone⟩
    · exact htwo
    · exact absurd hreports (hnone line hline)

theorem perform_eq_one : (perform r ports clock w).1.status = 1 ↔
    (∃ rejection, r.rejection? = some rejection) ∨
      ∃ e w', fulfil ports r clock w = .error e w' := by
  constructor
  · intro h
    rcases perform_cases ports r clock w with ⟨-, hfailure⟩ | ⟨o, ho⟩
    · exact hfailure
    · rcases ho.status with ⟨htwo, -⟩ | ⟨hzero, -⟩
      · omega
      · omega
  · exact perform_status_of_failure

theorem perform_eq_zero : (perform r ports clock w).1.status = 0 ↔
    ∃ o, Completes ports r clock w o ∧ ∀ line ∈ o.lines, ¬IsFailure line := by
  constructor
  · intro h
    rcases perform_cases ports r clock w with ⟨hone, -⟩ | ⟨o, ho⟩
    · omega
    · rcases ho.status with ⟨htwo, -⟩ | ⟨-, hnone⟩
      · omega
      · exact ⟨o, ho, hnone⟩
  · rintro ⟨o, ho, hnone⟩
    rcases ho.status with ⟨-, line, hline, hreports⟩ | ⟨hzero, -⟩
    · exact absurd hreports (hnone line hline)
    · exact hzero

end perform

/-! ## Command lines -/

/-- **A status tells how the program ended, but 2 has two meanings.** The status is 2 exactly if the
command line is refused, or a run completes and a line of its capture reports a failed assertion. It
is 1 exactly if a run is demanded and either its request is rejected or the run fails, be it for
want of data or at one of its outputs. It is 0 exactly if information is demanded, or a run that
completes and has no such line. -/
theorem run_status (arguments : List String) (environment : String → Option String) (ports : Ports)
    (clock : Clock) (w : World) :
    ((run arguments environment ports clock w).1.status = 2 ↔
      (∃ e, demand arguments environment = .error e) ∨
      ∃ r o, demand arguments environment = .ok (.run r) ∧ Completes ports r clock w o ∧
        ∃ line ∈ o.lines, IsFailure line) ∧
    ((run arguments environment ports clock w).1.status = 1 ↔
      ∃ r, demand arguments environment = .ok (.run r) ∧
        ((∃ rejection, r.rejection? = some rejection) ∨
          ∃ e w', fulfil ports r clock w = .error e w')) ∧
    ((run arguments environment ports clock w).1.status = 0 ↔
      (∃ text, demand arguments environment = .ok (.information text)) ∨
      ∃ r o, demand arguments environment = .ok (.run r) ∧ Completes ports r clock w o ∧
        ∀ line ∈ o.lines, ¬IsFailure line) := by
  rw [run_eq]
  cases demand arguments environment with
  | error e => simp
  | ok demanded =>
    cases demanded with
    | information text => simp
    | run r => simp [perform_eq_two, perform_eq_one, perform_eq_zero]

/-- An option that does not exist is answered with the status 2, although no run is demanded, let
alone a capture with a failed assertion: the program does nothing. -/
theorem run_status_unknownOption :
    (run ["--nope"] (fun _ => none) closedPorts (midnight 16) ⟨⟨[], []⟩, {}⟩).1.status = 2 ∧
    (run ["--nope"] (fun _ => none) closedPorts (midnight 16) ⟨⟨[], []⟩, {}⟩).2 = ⟨⟨[], []⟩, {}⟩ ∧
    ∀ r, demand ["--nope"] (fun _ => none) ≠ .ok (.run r) := by
  refine ⟨rfl, rfl, ?_⟩
  intro r h
  cases h

end BenchLedger.CommandLine
