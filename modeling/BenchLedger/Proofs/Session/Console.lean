import BenchLedger.Proofs.Capture.Echo
import BenchLedger.Proofs.Filing
import BenchLedger.Session.Run

/-!
# The console decides nothing

Two runs that differ only in their consoles capture the same, end in the same way and leave the same
tree (`console_decides_nothing`). For the actions of a run this is `Blind`, a property of two runs
that holds of each action by itself and is kept when actions follow one another; for the capture
loop it is `gather_eq`.
-/

namespace BenchLedger.Run

open Capture Disk

/-- What is left of the end of an action when the console is not looked at: the result or the
failure, and the tree. -/
def apartFromConsole {α : Type} : EStateM.Result RunError World α → Except RunError α × Tree
  | .ok a w => (.ok a, w.tree)
  | .error e w => (.error e, w.tree)

/-- An action ends alike on worlds with the same tree, whatever their consoles are. -/
def Blind {α : Type} (action : Run α) : Prop :=
  ∀ t console console', apartFromConsole (action ⟨t, console⟩) =
    apartFromConsole (action ⟨t, console'⟩)

section actions

variable {α β : Type}

theorem blind_pure (a : α) : Blind (pure a) := fun _ _ _ => rfl

theorem blind_throw (e : RunError) : Blind (throw e : Run α) := fun _ _ _ => rfl

theorem blind_printLine (text : String) : Blind (printLine text) := fun _ _ _ => rfl

theorem Blind.bind {action : Run α} {next : α → Run β} (h : Blind action)
    (hnext : ∀ a, Blind (next a)) : Blind (action >>= next) := by
  intro t console console'
  have hsame := h t console console'
  cases hfirst : action ⟨t, console⟩ with
  | ok a w =>
    cases hsecond : action ⟨t, console'⟩ with
    | ok a' w' =>
      rw [bind_of_ok hfirst, bind_of_ok hsecond]
      rw [hfirst, hsecond] at hsame
      obtain ⟨ha, htree⟩ := Prod.mk.inj hsame
      cases ha
      obtain ⟨t', after⟩ := w
      obtain ⟨t'', after'⟩ := w'
      cases htree
      exact hnext a t' after after'
    | error e w' =>
      rw [hfirst, hsecond] at hsame
      cases hsame
  | error e w =>
    cases hsecond : action ⟨t, console'⟩ with
    | ok a' w' =>
      rw [hfirst, hsecond] at hsame
      cases hsame
    | error e' w' =>
      rw [bind_of_error hfirst, bind_of_error hsecond]
      rw [hfirst, hsecond] at hsame
      obtain ⟨he, htree⟩ := Prod.mk.inj hsame
      cases he
      exact congrArg (Prod.mk _) htree

theorem blind_file (name : FilingError → RunError) (action : Filing α) :
    Blind (file name action) := by
  intro t console console'
  unfold file
  cases action t with
  | ok a t' => rfl
  | error e t' => rfl

end actions

/-! ## The actions of a run -/

variable (o : Outcome) (r : Request) (clock : Clock) (s : Summary)

theorem blind_keepTranscript : Blind (keepTranscript o r clock) := by
  unfold keepTranscript
  split_ifs
  · exact (blind_file _ _).bind fun p => blind_pure (some p)
  · exact blind_pure none

theorem blind_updateLedger : Blind (updateLedger s r clock) := by
  unfold updateLedger
  split_ifs
  · exact blind_file _ _
  · exact blind_pure ()

theorem blind_keepRecord : Blind (keepRecord o s r clock) := by
  unfold keepRecord
  cases r.record with
  | none => exact blind_pure ()
  | some p => exact blind_file _ _

theorem blind_conclude : Blind (conclude o r clock) := by
  unfold conclude
  split_ifs with hlines
  · exact fun t console console' => rfl
  · refine (blind_printLine _).bind fun _ => ?_
    refine (blind_keepTranscript o r clock).bind fun transcript => ?_
    refine (blind_updateLedger r clock _).bind fun _ => ?_
    refine (blind_keepRecord o r clock _).bind fun _ => ?_
    split_ifs with hfailure
    · exact (blind_printLine _).bind fun _ => blind_pure _
    · exact blind_pure _

theorem blind_listen (script : Script) (settings : Settings) : Blind (listen script settings) := by
  intro t console console'
  obtain ⟨o, warnings, st', journal, hgather⟩ := gather_eq Script.device
    { script with duration := settings.duration }.turns settings.duration settings.pause
    { script with duration := settings.duration }
  have hannounced := gatherAnnounced_eq fun c => (hgather c).1
  simp only [listen, hannounced]
  rfl

theorem blind_capture (ports : Ports) (settings : Settings) : Blind (capture ports settings) := by
  unfold capture
  cases ports.find settings.portsToTry with
  | error e => exact fun t console console' => rfl
  | ok port =>
    refine (blind_pure port).bind fun port => ?_
    dsimp only
    cases ports.connect port with
    | error e =>
      split_ifs
      · exact (blind_printLine _).bind fun _ => blind_throw _
      · exact blind_throw _
    | ok script =>
      split_ifs
      · exact (blind_printLine _).bind fun _ => blind_listen script settings
      · exact blind_listen script settings

theorem blind_replay (p : Path) : Blind (replay p clock) := by
  intro t console console'
  simp only [replay]
  cases Transcript.read? p t with
  | error e => rfl
  | ok lines => rfl

theorem blind_fulfil (ports : Ports) : Blind (fulfil ports r clock) := by
  unfold fulfil
  cases r.replay with
  | none => exact (blind_capture ports r.settings).bind fun o => blind_conclude o r clock
  | some p => exact (blind_replay clock p).bind fun o => blind_conclude o r clock

/-! ## Captures and runs -/

/-- **The console decides nothing.** A capture over any device brings the same outcome and the same
warnings, and makes the same calls with the same answers, whatever console it is given. A console
that works shows the lines of the outcome, each with a line feed after it, and one that does not
work shows nothing new. If the stream of the capture ends, then with enough turns its outcome is all
that the stream handed out. The end of a run, whether or not it fails, and the tree that it leaves
are the same on all consoles, both from its lines on and as a whole. -/
theorem console_decides_nothing :
    (∀ (σ : Type) (d : Device σ) (fuel duration pause : Nat) (st : σ),
      ∃ o warnings st' journal,
        (∀ console,
          gather d fuel duration pause console st =
            ⟨o, warnings, console.printLines o.lines, st'⟩ ∧
          gather d.recorded fuel duration pause console (st, []) =
            ⟨o, warnings, console.printLines o.lines, (st', journal)⟩ ∧
          gatherAnnounced d fuel duration pause console st =
            ⟨o, warnings, console.printLines (announcement duration o), st'⟩ ∧
          gatherAnnounced d.recorded fuel duration pause console (st, []) =
            ⟨o, warnings, console.printLines (announcement duration o), (st', journal)⟩) ∧
        ∀ written,
          (gather d fuel duration pause ⟨true, written⟩ st).console =
            ⟨true, written ++ shown o.lines⟩ ∧
          (gather d fuel duration pause ⟨false, written⟩ st).console = ⟨false, written⟩) ∧
    (∀ (σ : Type) (d : Device σ) (duration pause : Nat) (st : σ) items s' st',
      Yields d (.start (d.now st).1 duration pause) (d.now st).2 items s' st' →
      ∃ turns, ∀ more console, gather d (turns + more) duration pause console st =
        ⟨⟨linesIn items, (d.now st').1 - (d.now st).1, s'.phase == .stopped⟩,
          (faultsIn items).map warningOf, console.printLines (linesIn items), (d.now st').2⟩) ∧
    (∀ o r clock, Blind (conclude o r clock)) ∧
    ∀ ports r clock, Blind (fulfil ports r clock) := by
  refine ⟨fun σ d fuel duration pause st => ?_, fun _ _ _ _ _ _ _ _ => gather_of_yields,
    blind_conclude, fun ports r clock => blind_fulfil r clock ports⟩
  obtain ⟨o, warnings, st', journal, hgather⟩ := gather_eq d fuel duration pause st
  refine ⟨o, warnings, st', journal, fun console => ⟨(hgather console).1, (hgather console).2,
    gatherAnnounced_eq (fun c => (hgather c).1) console,
    gatherAnnounced_eq (fun c => (hgather c).2) console⟩, fun written => ⟨?_, ?_⟩⟩
  · rw [(hgather _).1, Console.printLines_of_working]
  · rw [(hgather _).1, Console.printLines_of_not_working]

theorem console_decides_nothing_brokenLine : ∃ turns, ∀ more written,
    (gather Script.device (turns + more) 1 0 ⟨false, written⟩ brokenLine).outcome.lines =
      ["a", "b"] ∧
    (gather Script.device (turns + more) 1 0 ⟨false, written⟩ brokenLine).warnings =
      ["[Read error: Read failed: unplugged]"] ∧
    (gather Script.device (turns + more) 1 0 ⟨true, ""⟩ brokenLine).console.written = "a\nb\n" := by
  have hitems : items? Script.device 10 10 (.start 0 1 0) brokenLine =
      some [.fault ⟨.other, "unplugged"⟩, .line "a", .line "b"] := by decide +kernel
  obtain ⟨s', st', hrun⟩ := exists_yields_of_items? hitems
  obtain ⟨turns, hturns⟩ := console_decides_nothing.2.1 Script _ _ _ brokenLine _ _ _ hrun
  refine ⟨turns, fun more written => ?_⟩
  rw [hturns more, hturns more, Console.printLines_of_working]
  exact ⟨rfl, rfl, rfl⟩

end BenchLedger.Run
