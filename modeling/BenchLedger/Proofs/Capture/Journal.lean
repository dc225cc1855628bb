import BenchLedger.Capture.Stream
import Mathlib.Tactic.Common

/-!
# What a turn of a stream does

A journal lists every call on a device with its answer. `Device.recorded` keeps one beside the state
of any device and changes nothing else. `step_recorded` says once and for all what one turn of a
stream can do: which calls it makes, in which order and with which answers, what it brings and what
becomes of the stream (`Moved`). Whatever a run of turns keeps is proved from that and not from the
definition of `Stream.step`.
-/

namespace BenchLedger.Capture

/-! ## Journals -/

/-- A call on a device and its answer. -/
inductive Call
  | polled (answer : Except Fault Nat)
  | read (size : Nat) (answer : Except Fault (List UInt8))
  | asked (answer : Bool)
  | timed (answer : Nat)
  | slept (nanos : Nat)

namespace Call

/-- The bytes that a call hands out: those of a read that succeeds. -/
def bytes : Call → List UInt8
  | .read _ (.ok chunk) => chunk
  | _ => []

/-- The failure of a call that is to be reported: that of any poll, and that of a read unless the
read only timed out or was interrupted. -/
def failure? : Call → Option Fault
  | .polled (.error f) => some f
  | .read _ (.error f) => if f.kind = .timedOut ∨ f.kind = .interrupted then none else some f
  | _ => none

end Call

/-- All bytes that the reads of a journal hand out. -/
def handedOut (journal : List Call) : List UInt8 := journal.flatMap Call.bytes

/-- The failures of a journal that are to be reported. -/
def failures (journal : List Call) : List Fault := journal.filterMap Call.failure?

section journal

variable (xs ys : List Call)

@[simp] theorem handedOut_append : handedOut (xs ++ ys) = handedOut xs ++ handedOut ys :=
  List.flatMap_append

@[simp] theorem failures_append : failures (xs ++ ys) = failures xs ++ failures ys :=
  List.filterMap_append

end journal

variable {σ : Type}

/-- The same device with a journal beside its state. -/
def Device.recorded (d : Device σ) : Device (σ × List Call) where
  available x :=
    let (answer, st) := d.available x.1
    (answer, st, x.2 ++ [.polled answer])
  read size x :=
    let (answer, st) := d.read size x.1
    (answer, st, x.2 ++ [.read size answer])
  cancelled x :=
    let (answer, st) := d.cancelled x.1
    (answer, st, x.2 ++ [.asked answer])
  now x :=
    let (answer, st) := d.now x.1
    (answer, st, x.2 ++ [.timed answer])
  sleep nanos x := (d.sleep nanos x.1, x.2 ++ [.slept nanos])

/-! ## The calls of one turn -/

/-- The calls of one poll and what it brings. -/
inductive Polled : List Call → Except Fault (List UInt8) → Prop
  | failed (f : Fault) : Polled [.polled (.error f)] (.error f)
  | idle : Polled [.polled (.ok 0)] (.ok [])
  | brought {n : Nat} (hn : 0 < n) (chunk : List UInt8) :
      Polled [.polled (.ok n), .read (min n bufferSize) (.ok chunk)] (.ok chunk)
  /-- The read fails, which only means that nothing was read. -/
  | passed {n : Nat} (hn : 0 < n) {f : Fault} (hf : f.isPassing = true) :
      Polled [.polled (.ok n), .read (min n bufferSize) (.error f)] (.ok [])
  | broken {n : Nat} (hn : 0 < n) {f : Fault} (hf : f.isPassing = false) :
      Polled [.polled (.ok n), .read (min n bufferSize) (.error f)] (.error f)

/-- The calls of the check before a poll, and how it closes the window if it does. -/
inductive Checked (deadline : Option Nat) : List Call → Option Phase → Prop
  /-- A request to stop closes the window without a look at the clock. -/
  | stopped : Checked deadline [.asked true] (some .stopped)
  | expired {closing now : Nat} (hd : deadline = some closing) (h : closing ≤ now) :
      Checked deadline [.asked false, .timed now] (some .expired)
  | early {closing now : Nat} (hd : deadline = some closing) (h : now < closing) :
      Checked deadline [.asked false, .timed now] none
  | endless (hd : deadline = none) : Checked deadline [.asked false] none

namespace Stream

/-- What one turn brings, the stream after it, and the calls that it makes. -/
inductive Moved (s : Stream) : Turn → Stream → List Call → Prop
  | hands {text : String} {rest : List String} (hq : s.queue = text :: rest) :
      Moved s (.line text) { s with queue := rest } []
  | ends (hq : s.queue = []) (hp : s.phase ≠ .running) : Moved s .ended s []
  | closes (hq : s.queue = []) (hp : s.phase = .running) {phase : Phase} {checks : List Call}
      (hc : Checked s.deadline checks (some phase)) : Moved s .again (s.close phase) checks
  | fails (hq : s.queue = []) (hp : s.phase = .running) {checks calls : List Call}
      (hc : Checked s.deadline checks none) {f : Fault} (hpoll : Polled calls (.error f)) :
      Moved s (.fault f) s (checks ++ calls ++ [.slept s.pause])
  | waits (hq : s.queue = []) (hp : s.phase = .running) {checks calls : List Call}
      (hc : Checked s.deadline checks none) (hpoll : Polled calls (.ok [])) :
      Moved s .again s (checks ++ calls ++ [.slept s.pause])
  | takes (hq : s.queue = []) (hp : s.phase = .running) {checks calls : List Call}
      (hc : Checked s.deadline checks none) {chunk : List UInt8} (hne : chunk ≠ [])
      (hpoll : Polled calls (.ok chunk)) : Moved s .again (s.accept chunk) (checks ++ calls)

variable (d : Device σ) (st : σ) (journal : List Call)

theorem poll_recorded : ∃ calls, Polled calls (poll d st).1 ∧
    poll d.recorded (st, journal) = ((poll d st).1, (poll d st).2, journal ++ calls) := by
  have havailable : d.recorded.available (st, journal) =
    ((d.available st).1, (d.available st).2, journal ++ [.polled (d.available st).1]) := rfl
  rw [poll, poll, havailable]
  generalize d.available st = polled
  rcases polled with ⟨f | _ | n, st₁⟩
  · exact ⟨_, .failed f, rfl⟩
  · exact ⟨_, .idle, rfl⟩
  · have hn : 0 < n + 1 := Nat.succ_pos n
    have hread : d.recorded.read (min (n + 1) bufferSize) (st₁, journal ++ [.polled (.ok (n + 1))]) =
      ((d.read (min (n + 1) bufferSize) st₁).1, (d.read (min (n + 1) bufferSize) st₁).2,
        journal ++ [.polled (.ok (n + 1))] ++
          [.read (min (n + 1) bufferSize) (d.read (min (n + 1) bufferSize) st₁).1]) := rfl
    simp only [hread]
    generalize d.read (min (n + 1) bufferSize) st₁ = answer
    rcases answer with ⟨f | chunk, st₂⟩
    · cases hf : f.isPassing with
      | true => exact ⟨_, by simpa [hf] using .passed hn hf, by simp [hf]⟩
      | false => exact ⟨_, by simpa [hf] using .broken hn hf, by simp [hf]⟩
    · exact ⟨_, .brought hn chunk, by simp⟩

theorem overdue_recorded (s : Stream) : ∃ looks,
    Checked s.deadline (.asked false :: looks)
      (if (s.overdue d st).1 then some .expired else none) ∧
    s.overdue d.recorded (st, journal) =
      ((s.overdue d st).1, (s.overdue d st).2, journal ++ looks) := by
  cases hd : s.deadline with
  | none => exact ⟨[], by simpa [overdue, hd] using .endless rfl, by simp [overdue, hd]⟩
  | some closing =>
    refine ⟨[.timed (d.now st).1], ?_, by simp only [overdue, hd]; rfl⟩
    rcases Nat.lt_or_ge (d.now st).1 closing with hlt | hge
    · simpa [overdue, hd, Nat.not_le.2 hlt] using .early rfl hlt
    · simpa [overdue, hd, hge] using .expired rfl hge

/-- One turn does one of the six things that `Moved` lists, and recording it changes nothing. -/
theorem step_recorded (s : Stream) : ∃ calls, Moved s (s.step d st).1 (s.step d st).2.1 calls ∧
    s.step d.recorded (st, journal) =
      ((s.step d st).1, (s.step d st).2.1, (s.step d st).2.2, journal ++ calls) := by
  unfold step
  cases hq : s.queue with
  | cons text rest => exact ⟨[], by simpa using .hands hq, by simp⟩
  | nil =>
    by_cases hp : s.phase = .running
    · have hcancelled : d.recorded.cancelled (st, journal) =
        ((d.cancelled st).1, (d.cancelled st).2, journal ++ [.asked (d.cancelled st).1]) := rfl
      simp only [hp, ne_eq, not_true_eq_false, if_false, hcancelled]
      generalize d.cancelled st = asked
      rcases asked with ⟨_ | _, st₁⟩
      · obtain ⟨looks, hchecked, hoverdue⟩ :=
          overdue_recorded d st₁ (journal ++ [.asked false]) s
        simp only [hoverdue]
        generalize s.overdue d st₁ = late at hchecked
        rcases late with ⟨_ | _, st₂⟩
        · obtain ⟨calls, hpolled, hpoll⟩ :=
            poll_recorded d st₂ (journal ++ [.asked false] ++ looks)
          simp only [hpoll]
          generalize poll d st₂ = polled at hpolled
          rcases polled with ⟨f | _ | ⟨b, bs⟩, st₃⟩
          · refine ⟨_, .fails hq hp hchecked hpolled, ?_⟩
            simp [Device.recorded]
          · refine ⟨_, .waits hq hp hchecked hpolled, ?_⟩
            simp [Device.recorded]
          · refine ⟨_, .takes hq hp hchecked (List.cons_ne_nil b bs) hpolled, ?_⟩
            simp
        · exact ⟨_, .closes hq hp hchecked, by simp⟩
      · exact ⟨_, .closes hq hp .stopped, rfl⟩
    · exact ⟨[], by simpa [hp] using .ends hq hp, by simp [hp]⟩

end Stream

end BenchLedger.Capture
