import BenchLedger.Capture.Stream

/-!
# Scripted devices

A device that plays a finite list of events on a clock that only waiting advances. Bytes that wait
are served before the next event; when no event is left, the device asks the capture to stop or
lets its whole duration pass. A capture of a script therefore ends after at most `Script.turns`
turns.
-/

namespace BenchLedger.Capture

/-- What an event does to the channel. -/
inductive Delivery
  | failure (f : Fault)
  /-- Bytes arrive. `announced` is reported in place of their number, `short` bounds the next read,
  and `readFault` makes it fail. -/
  | bytes (chunk : List UInt8) (short announced : Option Nat) (readFault : Option Fault)

structure Event where
  expires : Bool
  cancels : Bool
  delivery : Delivery

/-- How a script ends when all events are played. -/
inductive Ending
  | cancel
  | deadline
  deriving DecidableEq

/-- A script and what was seen of the capture that it is played to. -/
structure Script where
  events : List Event
  ending : Ending := .cancel
  duration : Nat := 0
  cancelled : Bool := false
  clock : Nat := 0
  waiting : List UInt8 := []
  short : Option Nat := none
  readFault : Option Fault := none
  polls : Nat := 0
  reads : List Nat := []

namespace Script

/-- The effect of an event before it reaches the channel. -/
def prepare (e : Event) (s : Script) : Script :=
  { s with clock := s.clock + (if e.expires then s.duration else 0)
           cancelled := s.cancelled || e.cancels }

/-- Answers a poll: the waiting bytes if there are any, else the next event. -/
def available (s : Script) : Except Fault Nat × Script :=
  let s := { s with polls := s.polls + 1 }
  if s.waiting ≠ [] then (.ok s.waiting.length, s)
  else match s.events with
    | [] =>
      match s.ending with
      | .cancel => (.ok 0, { s with cancelled := true })
      | .deadline => (.ok 0, { s with clock := s.clock + s.duration })
    | e :: events =>
      let s := prepare e { s with events }
      match e.delivery with
      | .failure f => (.error f, s)
      | .bytes waiting short announced readFault =>
        (.ok (announced.getD waiting.length), { s with waiting, short, readFault })

def read (size : Nat) (s : Script) : Except Fault (List UInt8) × Script :=
  let s := { s with reads := s.reads ++ [size] }
  match s.readFault with
  | some f => (.error f, { s with readFault := none })
  | none =>
    let n := min size (s.short.getD size)
    (.ok (s.waiting.take n), { s with waiting := s.waiting.drop n, short := none })

def device : Device Script where
  available := available
  read := read
  cancelled s := (s.cancelled, s)
  now s := (s.clock, s)
  sleep nanos s := { s with clock := s.clock + nanos }

/-- How many turns an event can take: its bytes may be read one by one, each may complete a line,
and a failed or an empty read takes a turn. -/
def turnsOf (e : Event) : Nat :=
  match e.delivery with
  | .failure _ => 1
  | .bytes chunk _ _ _ => 4 + 2 * chunk.length

/-- A bound on the turns of a capture of the script. -/
def turns (s : Script) : Nat :=
  s.events.foldl (fun n e => n + turnsOf e) (8 + 2 * s.waiting.length)

end Script

end BenchLedger.Capture
