import BenchLedger.Proofs.Capture.Runs
import Mathlib.Algebra.Ring.Nat

/-!
# The calls on a script

What a scripted device does at each call. No byte is lost or doubled by any of them (`keeps_bytes`);
the token is cancelled for a reason that the script gives (`keeps_accounts`); the end of a script
closes the window that it is meant for (`Closes.isDue_finish`); and a poll that does not find this
end lowers `Script.work`, which prices a waiting byte at two turns, one to read it and one for the
line that it may complete, and what an event brings at `Script.turnsOf` (`poll_cases`).
-/

namespace BenchLedger.Capture

/-- The bytes that an event brings to the channel. -/
def Event.bytes (e : Event) : List UInt8 :=
  match e.delivery with
  | .failure _ => []
  | .bytes chunk _ _ _ => chunk

namespace Script

/-- All bytes that a script has yet to hand out. -/
def bytes (st : Script) : List UInt8 := st.waiting ++ st.events.flatMap Event.bytes

/-- No event and no byte is left. -/
def IsUsedUp (st : Script) : Prop := st.events = [] ∧ st.waiting = []

/-- Whether a check closes a window with the given deadline. -/
def isDue (deadline : Option Nat) (st : Script) : Bool :=
  st.cancelled || deadline.any fun closing => decide (closing ≤ st.clock)

theorem isDue_iff {deadline : Option Nat} {st : Script} : st.isDue deadline = true ↔
    st.cancelled = true ∨ ∃ closing, deadline = some closing ∧ closing ≤ st.clock := by
  simp [isDue, Option.any_eq_true]

/-- What a script does when all events are played. -/
def finish (st : Script) : Script :=
  match st.ending with
  | .cancel => { st with cancelled := true }
  | .deadline => { st with clock := st.clock + st.duration }

/-- The end of a script closes a window with the given deadline: it cancels, or the time that it
lets pass reaches the deadline. -/
def Closes (deadline : Option Nat) (st : Script) : Prop :=
  st.ending = .cancel ∨ ∃ closing, deadline = some closing ∧ closing ≤ st.clock + st.duration

/-- The answer to a poll, and the script after it. -/
inductive Answers (st : Script) : Except Fault Nat → Script → Prop
  | announces (hw : st.waiting ≠ []) :
      Answers st (.ok st.waiting.length) { st with polls := st.polls + 1 }
  | finishes (hused : st.IsUsedUp) : Answers st (.ok 0) (finish { st with polls := st.polls + 1 })
  | fails (hw : st.waiting = []) {e : Event} {events : List Event} (he : st.events = e :: events)
      {f : Fault} (hd : e.delivery = .failure f) :
      Answers st (.error f) (prepare e { st with polls := st.polls + 1, events })
  | brings (hw : st.waiting = []) {e : Event} {events : List Event} (he : st.events = e :: events)
      {waiting : List UInt8} {short announced : Option Nat} {readFault : Option Fault}
      (hd : e.delivery = .bytes waiting short announced readFault) :
      Answers st (.ok (announced.getD waiting.length))
        { prepare e { st with polls := st.polls + 1, events } with waiting, short, readFault }

theorem answers (st : Script) : Answers st (available st).1 (available st).2 := by
  unfold available
  by_cases hw : st.waiting = []
  · simp only [hw, ne_eq, not_true_eq_false, if_false]
    cases he : st.events with
    | nil =>
      have hfinish := Answers.finishes ⟨he, hw⟩
      unfold finish at hfinish
      dsimp only at hfinish ⊢
      cases hending : st.ending <;> simpa [hending, hw, he] using hfinish
    | cons e events =>
      cases hd : e.delivery with
      | failure f => simpa [prepare, hw, hd] using Answers.fails hw he hd
      | bytes waiting short announced readFault =>
        simpa [prepare, hd] using Answers.brings hw he hd
  · simpa [hw] using Answers.announces hw

theorem read_cases (size : Nat) (st : Script) :
    (∃ f, st.readFault = some f ∧ read size st =
      (.error f, { st with reads := st.reads ++ [size], readFault := none })) ∨
    (st.readFault = none ∧ ∃ n, n = min size (st.short.getD size) ∧ read size st =
      (.ok (st.waiting.take n),
        { st with reads := st.reads ++ [size], waiting := st.waiting.drop n, short := none })) := by
  unfold read
  cases hfault : st.readFault with
  | some f => exact .inl ⟨f, rfl, rfl⟩
  | none => exact .inr ⟨rfl, _, rfl, by simp⟩

/-! ### No byte is lost or doubled -/

theorem Answers.bytes {st st₁ : Script} {answer : Except Fault Nat} (h : Answers st answer st₁) :
    st₁.bytes = st.bytes := by
  cases h with
  | announces hw => rfl
  | finishes hused =>
    unfold finish
    split <;> rfl
  | fails hw he hd => simp [Script.bytes, prepare, hw, he, Event.bytes, hd]
  | brings hw he hd => simp [Script.bytes, prepare, hw, he, Event.bytes, hd]

theorem bytes_read (size : Nat) (st : Script) :
    (Call.read size (read size st).1).bytes ++ (read size st).2.bytes = st.bytes := by
  obtain ⟨f, -, hread⟩ | ⟨-, n, -, hread⟩ := read_cases size st <;> rw [hread]
  · rfl
  · simp only [Call.bytes, Script.bytes, ← List.append_assoc, List.take_append_drop]

theorem keeps_bytes (all : List UInt8) :
    Script.device.recorded.Keeps fun x => handedOut x.2 ++ x.1.bytes = all where
  available x h := by
    have hpolled : handedOut [.polled (available x.1).1] = [] := rfl
    show handedOut (x.2 ++ [.polled (available x.1).1]) ++ (available x.1).2.bytes = all
    rw [handedOut_append, hpolled, List.append_nil, x.1.answers.bytes, h]
  read size x h := by
    have hcall (call : Call) : handedOut [call] = call.bytes := List.flatMap_singleton ..
    show handedOut (x.2 ++ [.read size (read size x.1).1]) ++ (read size x.1).2.bytes = all
    rw [handedOut_append, hcall, List.append_assoc, bytes_read, h]
  cancelled x h := by
    show handedOut (x.2 ++ [.asked x.1.cancelled]) ++ x.1.bytes = all
    rw [handedOut_append, ← h]
    exact congrArg (· ++ x.1.bytes) (List.append_nil _)
  now x h := by
    show handedOut (x.2 ++ [.timed x.1.clock]) ++ x.1.bytes = all
    rw [handedOut_append, ← h]
    exact congrArg (· ++ x.1.bytes) (List.append_nil _)
  sleep nanos x h := by
    show handedOut (x.2 ++ [.slept nanos]) ++ x.1.bytes = all
    rw [handedOut_append, ← h]
    exact congrArg (· ++ x.1.bytes) (List.append_nil _)

/-! ### Why a script is closed -/

/-- The events that were played, and why the token is cancelled as long as the script is not used
up. -/
def Accounts (start st : Script) : Prop :=
  ∃ played, start.events = played ++ st.events ∧
    (st.cancelled = true → start.cancelled = true ∨ (∃ e ∈ played, e.cancels = true) ∨ st.IsUsedUp)

theorem Answers.accounts {start st st₁ : Script} {answer : Except Fault Nat}
    (h : Answers st answer st₁) (hst : Accounts start st) : Accounts start st₁ := by
  obtain ⟨played, hplayed, hcause⟩ := hst
  cases h with
  | announces hw => exact ⟨played, hplayed, hcause⟩
  | finishes hused =>
    unfold finish
    split <;> exact ⟨played, hplayed, fun _ => .inr (.inr hused)⟩
  | @fails hw e events he | @brings hw e events he =>
    refine ⟨played ++ [e], by simp [hplayed, he, prepare], fun hcancelled => ?_⟩
    -- An event is left, so the script was not used up before.
    have hleft : ¬st.IsUsedUp := by
      rintro ⟨hnone, -⟩
      rw [he] at hnone
      cases hnone
    have hcancelled : st.cancelled = true ∨ e.cancels = true := by simpa [prepare] using hcancelled
    rcases hcancelled with hbefore | he
    · obtain hstart | ⟨e', he', hcancels⟩ | hused := hcause hbefore
      · exact .inl hstart
      · exact .inr (.inl ⟨e', List.mem_append_left _ he', hcancels⟩)
      · exact absurd hused hleft
    · exact .inr (.inl ⟨e, by simp, he⟩)

theorem keeps_accounts (start : Script) : Script.device.Keeps (Accounts start) where
  available st h := st.answers.accounts h
  read size st h := by
    obtain ⟨played, hplayed, hcause⟩ := h
    change Accounts start (read size st).2
    obtain ⟨f, -, hread⟩ | ⟨-, n, -, hread⟩ := read_cases size st <;> rw [hread]
    · exact ⟨played, hplayed, hcause⟩
    · refine ⟨played, hplayed, fun hcancelled => (hcause hcancelled).imp_right fun hlater => ?_⟩
      refine hlater.imp_right fun hused => ⟨hused.1, ?_⟩
      simp [hused.2]
  cancelled st h := h
  now st h := h
  sleep nanos st h := h

theorem Answers.closes {deadline : Option Nat} {st st₁ : Script} {answer : Except Fault Nat}
    (h : Answers st answer st₁) (hst : Closes deadline st) : Closes deadline st₁ := by
  have hlater {st₁ : Script} (hending : st₁.ending = st.ending)
      (hclock : st.clock + st.duration ≤ st₁.clock + st₁.duration) : Closes deadline st₁ :=
    hst.imp hending.trans fun ⟨closing, hd, hle⟩ => ⟨closing, hd, hle.trans hclock⟩
  cases h with
  | announces hw => exact hlater rfl le_rfl
  | finishes hused =>
    unfold finish
    split
    · exact hlater rfl le_rfl
    · exact hlater rfl (by dsimp only; omega)
  | fails hw he hd | brings hw he hd => exact hlater rfl (by simp only [prepare]; omega)

theorem keeps_closes (deadline : Option Nat) : Script.device.Keeps (Closes deadline) where
  available st h := st.answers.closes h
  read size st h := by
    change Closes deadline (read size st).2
    obtain ⟨f, -, hread⟩ | ⟨-, n, -, hread⟩ := read_cases size st <;> rw [hread] <;> exact h
  cancelled st h := h
  now st h := h
  sleep nanos st h := h.imp_right fun ⟨closing, hd, hle⟩ => ⟨closing, hd, by
    show closing ≤ st.clock + nanos + st.duration
    omega⟩

theorem Closes.isDue_finish {deadline : Option Nat} {st : Script} (h : Closes deadline st)
    (nanos : Nat) : (Script.device.sleep nanos (finish st)).isDue deadline = true := by
  unfold finish
  cases hending : st.ending with
  | cancel => rfl
  | deadline =>
    obtain hcancel | ⟨closing, rfl, hle⟩ := h
    · rw [hending] at hcancel
      cases hcancel
    · have hlate : closing ≤ st.clock + st.duration + nanos := by omega
      simp [isDue, Script.device, hlate]

/-! ### What is left to do -/

/-- The turns that it takes to read what waits and to hand out its lines. -/
def pending (st : Script) : Nat :=
  2 * st.waiting.length + (if st.readFault.isSome then 1 else 0) +
    if st.short = some 0 then 1 else 0

def work (st : Script) : Nat := st.pending + (st.events.map turnsOf).sum

theorem work_finish (st : Script) : (finish st).work = st.work := by
  unfold finish
  split <;> rfl

theorem turns_eq (st : Script) :
    st.turns = 8 + 2 * st.waiting.length + (st.events.map turnsOf).sum := by
  have hfold (n : Nat) (events : List Event) :
      events.foldl (fun n e => n + turnsOf e) n = n + (events.map turnsOf).sum := by
    induction events generalizing n with
    | nil => rfl
    | cons e events ih =>
      rw [List.foldl_cons, ih, List.map_cons, List.sum_cons]
      omega
  rw [turns, hfold]

theorem work_add_lt_turns (st : Script) : st.work + 3 < st.turns := by
  rw [turns_eq, work, pending]
  split_ifs <;> omega

/-- How much less there is to do once bytes were read: a turn for each and one for its line, and for
a read that brought nothing the turn that it took. -/
def gain (brought : Except Fault (List UInt8)) : Nat :=
  match brought with
  | .ok chunk => 2 * chunk.length
  | .error _ => 0

theorem work_read_le (size : Nat) (st : Script) :
    (read size st).2.work + gain (read size st).1 ≤ st.work := by
  obtain ⟨f, hfault, hread⟩ | ⟨hfault, n, -, hread⟩ := read_cases size st <;> rw [hread] <;>
    simp only [work, pending, gain, hfault, Option.isSome_none, Option.isSome_some,
      Bool.false_eq_true, if_false, if_true, reduceCtorEq, List.length_take, List.length_drop] <;>
    omega

/-- A read with bytes waiting is never for nothing: it takes some, or uses up what keeps it from
taking them. -/
theorem work_read_lt {size : Nat} {st : Script} (hsize : 0 < size) (hw : st.waiting ≠ []) :
    (read size st).2.work + max 1 (gain (read size st).1) ≤ st.work := by
  have hlength : 0 < st.waiting.length := List.length_pos_iff.2 hw
  obtain ⟨f, hfault, hread⟩ | ⟨hfault, n, hn, hread⟩ := read_cases size st <;> rw [hread] <;>
    simp only [work, pending, gain, hfault, Option.isSome_none, Option.isSome_some,
      Bool.false_eq_true, if_false, if_true, reduceCtorEq, List.length_take, List.length_drop]
  · omega
  · cases hshort : st.short with
    | none =>
      rw [hshort, Option.getD_none, Nat.min_self] at hn
      simp only [reduceCtorEq, if_false]
      omega
    | some m =>
      rw [hshort, Option.getD_some] at hn
      simp only [Option.some.injEq]
      split_ifs <;> omega

theorem polls_read (size : Nat) (st : Script) : (read size st).2.polls = st.polls := by
  obtain ⟨f, -, hread⟩ | ⟨-, n, -, hread⟩ := read_cases size st <;> rw [hread]

theorem Answers.work_cases {st st₁ : Script} {answer : Except Fault Nat}
    (h : Answers st answer st₁) :
    (answer = .ok 0 ∧ st₁ = finish { st with polls := st.polls + 1 }) ∨
    (st₁.polls = st.polls + 1 ∧ (st₁.work < st.work ∨
      st₁.work = st.work ∧ st₁.waiting ≠ [] ∧ ∃ n, answer = .ok (n + 1))) := by
  cases h with
  | announces hw =>
    have hn : st.waiting.length = st.waiting.length - 1 + 1 :=
      (Nat.sub_add_cancel (List.length_pos_iff.2 hw)).symm
    exact .inr ⟨rfl, .inr ⟨rfl, hw, _, congrArg _ hn⟩⟩
  | finishes hused => exact .inl ⟨rfl, rfl⟩
  | fails hw he hd =>
    refine .inr ⟨rfl, .inl ?_⟩
    simp only [work, pending, prepare, he, List.map_cons, List.sum_cons, turnsOf, hd]
    omega
  | brings hw he hd =>
    refine .inr ⟨rfl, .inl ?_⟩
    simp only [work, pending, prepare, he, hw, List.map_cons, List.sum_cons, turnsOf, hd]
    split_ifs <;> omega

theorem poll_of_announced {st st₁ : Script} {n : Nat} (h : available st = (.ok (n + 1), st₁)) :
    ∃ size brought, 0 < size ∧ gain brought = gain (read size st₁).1 ∧
      Stream.poll Script.device st = (brought, (read size st₁).2) := by
  have havailable : Script.device.available st = (.ok (n + 1), st₁) := h
  have hsize : 0 < min (n + 1) bufferSize := Nat.lt_min.2 ⟨n.succ_pos, by decide⟩
  have hread : Script.device.read (min (n + 1) bufferSize) st₁ =
    read (min (n + 1) bufferSize) st₁ := rfl
  cases hbrought : read (min (n + 1) bufferSize) st₁ with
  | mk brought st₂ =>
    cases brought with
    | ok chunk =>
      refine ⟨_, .ok chunk, hsize, by rw [hbrought], ?_⟩
      simp only [Stream.poll, havailable, hread, hbrought]
    | error f =>
      refine ⟨_, if f.isPassing then .ok [] else .error f, hsize, ?_, ?_⟩
      · rw [hbrought]
        cases f.isPassing <;> rfl
      · simp only [Stream.poll, havailable, hread, hbrought]

/-- What one poll of a stream does to a script: it finds its end, or leaves less to do. -/
theorem poll_cases (st : Script) :
    Stream.poll Script.device st = (.ok [], finish { st with polls := st.polls + 1 }) ∨
    ∃ brought st₁, Stream.poll Script.device st = (brought, st₁) ∧ st₁.polls = st.polls + 1 ∧
      st₁.work + max 1 (gain brought) ≤ st.work := by
  cases havailable : available st with
  | mk answer st₁ =>
    have hanswer : Script.device.available st = (answer, st₁) := havailable
    have hanswers : Answers st answer st₁ := by
      have h := st.answers
      rwa [havailable] at h
    obtain ⟨rfl, rfl⟩ | ⟨hpolls, hwork⟩ := hanswers.work_cases
    · refine .inl ?_
      simp only [Stream.poll, hanswer]
    · refine .inr ?_
      cases answer with
      | error f =>
        refine ⟨.error f, st₁, by simp only [Stream.poll, hanswer], hpolls, ?_⟩
        obtain hless | ⟨-, -, n, hn⟩ := hwork
        · exact hless
        · cases hn
      | ok n =>
        cases n with
        | zero =>
          refine ⟨.ok [], st₁, by simp only [Stream.poll, hanswer], hpolls, ?_⟩
          obtain hless | ⟨-, -, n, hn⟩ := hwork
          · exact hless
          · cases hn
        | succ n =>
          obtain ⟨size, brought, hsize, hgain, hpoll⟩ := poll_of_announced havailable
          refine ⟨brought, _, hpoll, (polls_read size st₁).trans hpolls, ?_⟩
          rw [hgain]
          obtain hless | ⟨hsame, hw, -⟩ := hwork
          · have hread := work_read_le size st₁
            omega
          · exact (work_read_lt hsize hw).trans_eq hsame

end Script

end BenchLedger.Capture
