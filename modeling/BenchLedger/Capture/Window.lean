import BenchLedger.Capture.Stream
import BenchLedger.Console
import BenchLedger.Decimal.Fixed

/-!
# Capture windows

A capture from its opening to its end: lines are kept and echoed to the console as they come, and
read failures become warnings. Neither a failed read nor a console that does not work ends it.
-/

namespace BenchLedger.Capture

open Decimal

/-- What a capture window brought. -/
structure Outcome where
  lines : List String
  /-- How long the window was open, in nanoseconds. -/
  elapsed : Nat
  stopped : Bool

/-- A number of nanoseconds as seconds: whole seconds plus the rest, added as floating-point
numbers. -/
def seconds (nanos : Nat) : Float :=
  Float.ofNat (nanos / 1000000000) + Float.ofNat (nanos % 1000000000) / 1000000000

/-- A capture under way. -/
structure Progress where
  /-- The lines so far, the last one first. -/
  lines : List String := []
  /-- The warnings so far, the last one first. -/
  warnings : List String := []
  console : Console

variable {σ : Type} (d : Device σ)

/-- Turns a stream at most `fuel` times and takes in what it hands out. -/
def collect : (fuel : Nat) → Stream → σ → Progress → Progress × Stream × σ
  | 0, s, st, p => (p, s, st)
  | fuel + 1, s, st, p =>
    match s.step d st with
    | (.ended, s, st) => (p, s, st)
    | (.again, s, st) => collect fuel s st p
    | (.line text, s, st) =>
      collect fuel s st
        { p with lines := text :: p.lines, console := p.console.printLine text }
    | (.fault f, s, st) =>
      collect fuel s st { p with warnings := ("[Read error: " ++ f.report ++ "]") :: p.warnings }

/-- What a finished capture leaves. -/
structure Captured (σ : Type) where
  outcome : Outcome
  warnings : List String
  console : Console
  state : σ

/-- Captures lines for `duration` nanoseconds, echoing each. -/
def gather (fuel duration pause : Nat) (console : Console) (st : σ) : Captured σ :=
  let (started, st) := d.now st
  let (p, s, st) := collect d fuel (.start started duration pause) st { console }
  let (ended, st) := d.now st
  { outcome := ⟨p.lines.reverse, ended - started, s.phase == .stopped⟩
    warnings := p.warnings.reverse
    console := p.console
    state := st }

def echoRule : String := String.ofList (List.replicate 60 '-')

def openingLine (duration : Nat) : String :=
  "Capturing for " ++ String.ofList (digits (duration / 1000000000)) ++ " seconds..."

def closingLine (o : Outcome) : String :=
  "Capture complete. " ++ String.ofList (digits o.lines.length) ++ " lines in " ++
    String.ofList (fixedPlaces 1 (seconds o.elapsed)) ++ "s"

/-- Announces a capture, captures, and reports how it ended. -/
def gatherAnnounced (fuel duration pause : Nat) (console : Console) (st : σ) : Captured σ :=
  let console := (console.printLine (openingLine duration)).printLine echoRule
  let c := gather d fuel duration pause console st
  let console :=
    if c.outcome.stopped then c.console.printLine "\n[Capture stopped by user]"
    else (c.console.printLine echoRule).printLine (closingLine c.outcome)
  { c with console }

end BenchLedger.Capture
