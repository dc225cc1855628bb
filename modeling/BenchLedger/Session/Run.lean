import BenchLedger.Capture.Window
import BenchLedger.Ledger.File
import BenchLedger.Port
import BenchLedger.Record.File
import BenchLedger.Report
import BenchLedger.Session.Request
import BenchLedger.Transcript.File

/-!
# Runs

A run from its lines to its files: lines come from a capture or from a transcript, their summary is
reported on the console, and then the transcript, the ledger row and the record are filed, each only
if the one before it was. The console decides nothing: a run is the same whether or not it works.
-/

namespace BenchLedger

open Capture Disk

/-- The part of the outside that a run changes. -/
structure World where
  tree : Tree
  console : Console := {}

/-- Why a run fails. -/
inductive RunError
  | noPort (cause : PortError)
  | noConnection (cause : PortError)
  | unreadable (transcript : Path) (cause : Disk.Error)
  | noData
  | transcriptNotSaved (cause : FilingError)
  | ledgerNotUpdated (cause : FilingError)
  | recordNotWritten (cause : FilingError)

/-- The words for a failure, then for its cause, and so on to the first cause. -/
def RunError.chain : RunError → List String
  | .noPort cause => "Could not find serial port" :: cause.chain
  | .noConnection cause => "Could not open serial port" :: cause.chain
  | .unreadable transcript cause =>
    ["Failed to read transcript " ++ transcript.text, Transcript.unreadable cause, cause.message]
  | .noData => ["No data captured!"]
  | .transcriptNotSaved cause => "Failed to save raw capture" :: cause.chain
  | .ledgerNotUpdated cause => "Failed to update tracking ledger" :: cause.chain
  | .recordNotWritten cause => "Failed to write summary JSON" :: cause.chain

inductive Exit
  | success
  | deviceFailed
  deriving DecidableEq

def Exit.code : Exit → Nat
  | .success => 0
  | .deviceFailed => 2

/-- What a completed run leaves behind. -/
structure Result where
  metrics : Metrics
  summary : Summary
  transcript : Option Path
  exit : Exit

/-- What a run reads off the local clock. -/
structure Clock where
  started : Moment
  filed : Moment
  /-- How many seconds the clock is ahead of universal time when the run starts. -/
  offset : Int
  /-- How long it takes to read a transcript, in nanoseconds. -/
  reading : Nat

/-- An action of a run. What it did before it failed stays done. -/
abbrev Run := EStateM RunError World

namespace Run

def printLine (text : String) : Run Unit :=
  modify fun w => { w with console := w.console.printLine text }

/-- Files something, and names the failure if that is not possible. -/
def file {α : Type} (name : FilingError → RunError) (action : Filing α) : Run α := fun w =>
  match action w.tree with
  | .ok a tree => .ok a { w with tree }
  | .error e tree => .error (name e) { w with tree }

/-- Saves the transcript of a live capture, if it is wanted. -/
def keepTranscript (o : Outcome) (r : Request) (clock : Clock) : Run (Option Path) :=
  if r.save ∧ r.replay.isNone then
    some <$> file .transcriptNotSaved
      (Transcript.keep r.settings.captures o.lines r.label clock.started)
  else pure none

/-- Adds the ledger row, if it is wanted. -/
def updateLedger (s : Summary) (r : Request) (clock : Clock) : Run Unit :=
  if r.save then file .ledgerNotUpdated (Ledger.add r.settings.ledger s r.label clock.filed)
  else pure ()

/-- The record of a run with the summary `s`. -/
def recordOf (o : Outcome) (s : Summary) (r : Request) (clock : Clock) : Record :=
  { label := r.label
    capturedAt := String.ofList (clock.started.zonedText clock.offset)
    elapsed := seconds o.elapsed
    lineCount := o.lines.length
    stopped := o.stopped
    summary := s }

/-- Writes the record, if it is wanted. -/
def keepRecord (o : Outcome) (s : Summary) (r : Request) (clock : Clock) : Run Unit :=
  match r.record with
  | none => pure ()
  | some p => file .recordNotWritten ((recordOf o s r clock).keep p)

/-- Reports on captured lines and files the results. -/
def conclude (o : Outcome) (r : Request) (clock : Clock) : Run Result := do
  if o.lines = [] then throw .noData
  let metrics := Metrics.ofLines o.lines
  let summary := Summary.ofMetrics metrics
  printLine (Report.text summary)
  let transcript ← keepTranscript o r clock
  updateLedger summary r clock
  keepRecord o summary r clock
  if metrics.markers.failure then
    printLine "\nWARNING: Failure marker detected! Check the capture."
    return ⟨metrics, summary, transcript, .deviceFailed⟩
  else return ⟨metrics, summary, transcript, .success⟩

def listen (script : Script) (s : Settings) : Run Outcome := fun w =>
  let script := { script with duration := s.duration }
  let c := gatherAnnounced Script.device script.turns s.duration s.pause w.console script
  .ok c.outcome { w with console := c.console }

/-- Finds a port, opens it and captures from it. -/
def capture (ports : Ports) (s : Settings) : Run Outcome := do
  let port ← match ports.find s.portsToTry with
    | .ok port => pure port
    | .error e => throw (.noPort e)
  if port ≠ s.port then
    printLine ("Note: Using " ++ port ++ " instead of " ++ s.port)
  match ports.connect port with
  | .error e => throw (.noConnection e)
  | .ok script => listen script s

def replay (p : Path) (clock : Clock) : Run Outcome := fun w =>
  match Transcript.read? p w.tree with
  | .ok lines => .ok ⟨lines, clock.reading, false⟩ w
  | .error e => .error (.unreadable p e) w

/-- Does what a request asks for. -/
def fulfil (ports : Ports) (r : Request) (clock : Clock) : Run Result := do
  let outcome ← match r.replay with
    | some p => replay p clock
    | none => capture ports r.settings
  conclude outcome r clock

end Run

end BenchLedger
