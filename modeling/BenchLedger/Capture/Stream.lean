import BenchLedger.Capture.Assembler
import BenchLedger.Capture.Device

/-!
# Capture streams

A capture as a sequence of lines and read failures. Each turn of the stream hands out a completed
line if there is one; otherwise it checks for the request to stop, then for the deadline, and then
polls the channel once. A closed window is never polled again, but what was read is still handed
out, the unfinished last line included.
-/

namespace BenchLedger.Capture

def bufferSize : Nat := 4096

/-- The greatest number of seconds at which a clock can be read. -/
def lastSecond : Nat := 0x7FFFFFFFFFFFFFFF

/-- Whether a window is open, and else why it was closed. -/
inductive Phase
  | running
  | stopped
  | expired
  deriving DecidableEq

/-- A capture window over a channel. -/
structure Stream where
  assembler : Assembler := {}
  queue : List String := []
  started : Nat
  /-- When it closes; never, if the clock cannot show that time. -/
  deadline : Option Nat
  pause : Nat
  phase : Phase := .running

/-- What one turn of a stream brings. -/
inductive Turn
  | again
  | line (text : String)
  | fault (f : Fault)
  | ended

namespace Stream

/-- Opens a window of some nanoseconds at the time that the clock shows. -/
def start (started duration pause : Nat) : Stream :=
  let closing := started + duration
  { started, pause
    deadline := if closing / 1000000000 ≤ lastSecond then some closing else none }

/-- Closes the window. What the assembler still holds becomes the last line. -/
def close (s : Stream) (phase : Phase) : Stream :=
  let (tail, assembler) := s.assembler.flush
  { s with queue := s.queue ++ tail.toList, assembler, phase }

/-- Takes in bytes that were read. -/
def accept (s : Stream) (chunk : List UInt8) : Stream :=
  let (lines, assembler) := s.assembler.push chunk
  { s with queue := s.queue ++ lines, assembler }

variable {σ : Type} (d : Device σ)

/-- Whether the deadline has passed. A window without a deadline does not look at the clock. -/
def overdue (s : Stream) (st : σ) : Bool × σ :=
  match s.deadline with
  | none => (false, st)
  | some closing =>
    let (now, st) := d.now st
    (decide (closing ≤ now), st)

/-- Polls the channel once, and reads if bytes are waiting: the bytes read, if any. -/
def poll (st : σ) : Except Fault (List UInt8) × σ :=
  match d.available st with
  | (.error f, st) => (.error f, st)
  | (.ok 0, st) => (.ok [], st)
  | (.ok n, st) =>
    match d.read (min n bufferSize) st with
    | (.ok chunk, st) => (.ok chunk, st)
    | (.error f, st) => (if f.isPassing then .ok [] else .error f, st)

/-- One turn of a stream. -/
def step (s : Stream) (st : σ) : Turn × Stream × σ :=
  match s.queue with
  | line :: rest => (.line line, { s with queue := rest }, st)
  | [] =>
    if s.phase ≠ .running then (.ended, s, st)
    else match d.cancelled st with
      | (true, st) => (.again, s.close .stopped, st)
      | (false, st) =>
        match s.overdue d st with
        | (true, st) => (.again, s.close .expired, st)
        | (false, st) =>
          match poll d st with
          | (.error f, st) => (.fault f, s, d.sleep s.pause st)
          | (.ok [], st) => (.again, s, d.sleep s.pause st)
          | (.ok chunk, st) => (.again, s.accept chunk, st)

/-- Turns the stream until it hands something out or ends, at most `fuel` times. -/
def next : (fuel : Nat) → Stream → σ → Turn × Stream × σ
  | 0, s, st => (.again, s, st)
  | fuel + 1, s, st =>
    match step d s st with
    | (.again, s, st) => next fuel s st
    | result => result

end Stream

end BenchLedger.Capture
