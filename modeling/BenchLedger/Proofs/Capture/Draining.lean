import BenchLedger.Proofs.Capture.Script

/-!
# Scripts are drained

A capture of a scripted device comes to its end, and unless the window is closed before the script
is used up, every byte of the script is read exactly once and in order: `script_drains`.

What is left to do is counted by `Stream.left`, a bound on the turns that a stream still takes: the
lines that it can hand out, the work that the script still brings, and the last poll of a script,
which is paid for by `Script.isDue` turning true there. Every turn but the last one lowers it
(`Played.left_lt`), so `Script.turns` turns are enough.
-/

namespace BenchLedger.Capture

open Script

/-! ## The turns of a run -/

/-- One turn of a stream over a script, and the script after it. -/
inductive Played (s : Stream) (st : Script) : Turn → Stream → Script → Prop
  | hands {text : String} {rest : List String} (hq : s.queue = text :: rest) :
      Played s st (.line text) { s with queue := rest } st
  | ends (hq : s.queue = []) (hp : s.phase ≠ .running) : Played s st .ended s st
  | closes (hq : s.queue = []) (hp : s.phase = .running) (hdue : st.isDue s.deadline = true)
      {phase : Phase} (hphase : phase ≠ .running) : Played s st .again (s.close phase) st
  | fails (hq : s.queue = []) (hp : s.phase = .running) (hopen : st.isDue s.deadline = false)
      {f : Fault} {st₁ : Script} (hpoll : Stream.poll device st = (.error f, st₁)) :
      Played s st (.fault f) s (device.sleep s.pause st₁)
  | waits (hq : s.queue = []) (hp : s.phase = .running) (hopen : st.isDue s.deadline = false)
      {st₁ : Script} (hpoll : Stream.poll device st = (.ok [], st₁)) :
      Played s st .again s (device.sleep s.pause st₁)
  | takes (hq : s.queue = []) (hp : s.phase = .running) (hopen : st.isDue s.deadline = false)
      {chunk : List UInt8} (hne : chunk ≠ []) {st₁ : Script}
      (hpoll : Stream.poll device st = (.ok chunk, st₁)) :
      Played s st .again (s.accept chunk) st₁

theorem played (s : Stream) (st : Script) :
    Played s st (s.step device st).1 (s.step device st).2.1 (s.step device st).2.2 := by
  have hcancelled : device.cancelled st = (st.cancelled, st) := rfl
  have hoverdue : s.overdue device st =
      (s.deadline.any fun closing => decide (closing ≤ st.clock), st) := by
    unfold Stream.overdue
    cases s.deadline <;> rfl
  unfold Stream.step
  cases hq : s.queue with
  | cons text rest => exact .hands hq
  | nil =>
    by_cases hp : s.phase = .running
    · simp only [hp, ne_eq, not_true_eq_false, if_false, hcancelled]
      cases hstop : st.cancelled with
      | true => exact .closes hq hp (by simp [isDue, hstop]) (by decide)
      | false =>
        simp only [hoverdue]
        cases hlate : s.deadline.any fun closing => decide (closing ≤ st.clock) with
        | true =>
          have hdue : st.isDue s.deadline = true := by rw [isDue, hlate, Bool.or_true]
          exact .closes hq hp hdue (by decide)
        | false =>
          have hopen : st.isDue s.deadline = false := by rw [isDue, hstop, hlate, Bool.or_false]
          cases hpoll : Stream.poll device st with
          | mk brought st₁ =>
            simp only [hpoll]
            cases brought with
            | error f => exact .fails hq hp hopen hpoll
            | ok chunk =>
              cases chunk with
              | nil => exact .waits hq hp hopen hpoll
              | cons b bs => exact .takes hq hp hopen (List.cons_ne_nil b bs) hpoll
    · simpa [hp] using Played.ends hq hp

theorem length_completeLines_le (bytes : List UInt8) :
    (completeLines bytes).length ≤ bytes.count lineFeed := by
  by_cases h : lineFeed ∈ bytes
  · obtain ⟨raw, rest, hsplit, hraw⟩ := List.eq_append_cons_of_mem h
    have hshorter : rest.length < bytes.length := by
      simp only [hsplit, List.length_append, List.length_cons]
      omega
    have hrest := length_completeLines_le rest
    have hfirst : (lineOf? raw).toList.length ≤ 1 := by cases lineOf? raw <;> simp
    rw [hsplit, completeLines_piece hraw, List.length_append, List.count_append,
      List.count_cons_self]
    omega
  · rw [completeLines_of_notMem h]
    exact Nat.zero_le _
termination_by bytes.length

namespace Stream

/-- A bound on the turns that a stream over a script takes before it ends. -/
def left (s : Stream) (st : Script) : Nat :=
  if s.phase = .running then
    s.queue.length + s.assembler.held.count lineFeed + st.work +
      (if st.isDue s.deadline then 0 else 1) + 2
  else s.queue.length

theorem left_accept (s : Stream) (chunk : List UInt8) :
    (s.accept chunk).queue.length + (s.accept chunk).assembler.held.count lineFeed ≤
      s.queue.length + s.assembler.held.count lineFeed + chunk.length := by
  have hlines := length_completeLines_le (s.assembler.held ++ chunk)
  have hheld : (unended (s.assembler.held ++ chunk)).count lineFeed = 0 :=
    List.count_eq_zero.2 (lineFeed_notMem_unended _)
  have hchunk := List.count_le_length (a := lineFeed) (l := chunk)
  rw [List.count_append] at hlines
  rw [accept, Assembler.push_eq]
  simp only [List.length_append, hheld]
  omega

theorem length_queue_close (s : Stream) (phase : Phase) :
    (s.close phase).queue.length ≤ s.queue.length + 1 := by
  have htail : s.assembler.flush.1.toList.length ≤ 1 := by
    cases s.assembler.flush.1 <;> simp
  simp only [close, List.length_append]
  omega

end Stream

/-- Every turn but the last one leaves less to do. -/
theorem Played.left_lt {s s' : Stream} {st st' : Script} {turn : Turn}
    (h : Played s st turn s' st') (hcloses : st.Closes s.deadline) (hturn : turn ≠ .ended) :
    s'.left st' < s.left st := by
  have hleft (hp : s.phase = .running) (hopen : st.isDue s.deadline = false) :
      s.left st = s.queue.length + s.assembler.held.count lineFeed + st.work + 3 := by
    simp [Stream.left, hp, hopen]
  have hleft' (s' : Stream) (st' : Script) (hp : s'.phase = .running) :
      s'.left st' ≤ s'.queue.length + s'.assembler.held.count lineFeed + st'.work + 3 := by
    rw [Stream.left, if_pos hp]
    split_ifs <;> omega
  have hsleep {st₁ : Script} (hp : s.phase = .running) (hopen : st.isDue s.deadline = false)
      (hless : st₁.work < st.work) : s.left (device.sleep s.pause st₁) < s.left st := by
    have hwork : (device.sleep s.pause st₁).work = st₁.work := rfl
    have hafter := hleft' s (device.sleep s.pause st₁) hp
    rw [hleft hp hopen]
    omega
  cases h with
  | ends hq hp => exact absurd rfl hturn
  | hands hq =>
    simp only [Stream.left, hq, List.length_cons]
    split_ifs <;> omega
  | @closes hq hp hdue phase hphase =>
    have hqueue := s.length_queue_close phase
    have hclosed : (s.close phase).left st = (s.close phase).queue.length := if_neg hphase
    rw [hclosed, Stream.left, if_pos hp]
    omega
  | @fails hq hp hopen f st₁ hpoll =>
    obtain hend | ⟨brought, st₂, hbrought, -, hless⟩ := st.poll_cases
    · rw [hend] at hpoll
      cases hpoll
    · rw [hbrought] at hpoll
      cases hpoll
      exact hsleep hp hopen (by omega)
  | @waits hq hp hopen st₁ hpoll =>
    obtain hend | ⟨brought, st₂, hbrought, -, hless⟩ := st.poll_cases
    · -- The script is at its end, and so the next check closes the window.
      rw [hend] at hpoll
      cases hpoll
      have hlater : Closes s.deadline { st with polls := st.polls + 1 } := hcloses
      have hdue := hlater.isDue_finish s.pause
      have hwork :
          (device.sleep s.pause (finish { st with polls := st.polls + 1 })).work = st.work :=
        work_finish _
      rw [hleft hp hopen, Stream.left, if_pos hp, if_pos hdue, hwork]
      omega
    · rw [hbrought] at hpoll
      cases hpoll
      exact hsleep hp hopen (by omega)
  | @takes hq hp hopen chunk hne st₁ hpoll =>
    obtain hend | ⟨brought, st₂, hbrought, -, hless⟩ := st.poll_cases
    · rw [hend] at hpoll
      cases hpoll
      exact absurd rfl hne
    · obtain ⟨rfl, rfl⟩ := Prod.mk.inj (hbrought.symm.trans hpoll)
      have hlength : 0 < chunk.length := List.length_pos_iff.2 hne
      have hlines := s.left_accept chunk
      have hafter := hleft' (s.accept chunk) st₂ hp
      rw [hleft hp hopen]
      simp only [gain] at hless
      omega

theorem polls_poll (st : Script) : (Stream.poll device st).2.polls = st.polls + 1 := by
  obtain hend | ⟨_, _, hbrought, hpolls, -⟩ := st.poll_cases
  · rw [hend]
    unfold finish
    split <;> rfl
  · rw [hbrought]
    exact hpolls

theorem Played.polls_le {s s' : Stream} {st st' : Script} {turn : Turn}
    (h : Played s st turn s' st') : st'.polls ≤ st.polls + 1 := by
  have hpolls := polls_poll st
  cases h with
  | hands | ends | closes => exact Nat.le_succ _
  | fails _ _ _ hpoll | waits _ _ _ hpoll | takes _ _ _ _ hpoll =>
    rw [hpoll] at hpolls
    exact hpolls.le

/-! ## Whole scripts -/

/-- What holds of a stream over a script at every turn of a run. -/
structure Draining (window : Option Nat) (bound : Nat) (s : Stream) (st : Script) : Prop where
  deadline : s.deadline = window
  closes : st.Closes window
  /-- The check that closed the window would close it again. -/
  due : s.phase ≠ .running → st.isDue window = true
  polls : st.polls + s.left st ≤ bound

section draining

variable {window : Option Nat} {bound : Nat} {s s' : Stream} {st st' : Script} {turn : Turn}

theorem Played.draining (hplayed : Played s st turn s' st') (h : Draining window bound s st)
    (hcloses : st'.Closes window) : Draining window bound s' st' := by
  have hlower := hplayed.left_lt (h.deadline.symm ▸ h.closes)
  have hpolls := hplayed.polls_le
  have hbound := h.polls
  have hturn (hne : turn ≠ .ended) : st'.polls + s'.left st' ≤ bound := by
    have hless := hlower hne
    omega
  cases hplayed with
  | hands hq => exact ⟨h.deadline, h.closes, h.due, hturn (by simp)⟩
  | ends hq hp => exact h
  | closes hq hp hdue hphase =>
    exact ⟨h.deadline, h.closes, fun _ => h.deadline ▸ hdue, hturn (by simp)⟩
  | fails hq hp | waits hq hp | takes hq hp =>
    exact ⟨h.deadline, hcloses, fun hclosed => absurd hp hclosed, hturn (by simp)⟩

theorem Draining.step (h : Draining window bound s st) :
    Draining window bound (s.step device st).2.1 (s.step device st).2.2 ∧
    ((s.step device st).1 ≠ .ended →
      (s.step device st).2.1.left (s.step device st).2.2 < s.left st) := by
  have hcloses := (keeps_closes window).step s h.closes
  have hplayed := played s st
  exact ⟨hplayed.draining h hcloses, hplayed.left_lt (h.deadline.symm ▸ h.closes)⟩

end draining

/-- A window is closed although its script is not used up: the token was cancelled beforehand, or an
event that was played cancels it, or the deadline has passed. -/
structure Script.CutShort (window : Option Nat) (start st : Script) : Prop where
  remains : ¬st.IsUsedUp
  cause : start.cancelled = true ∨
    (∃ played, start.events = played ++ st.events ∧ ∃ e ∈ played, e.cancels = true) ∨
    ∃ closing, window = some closing ∧ closing ≤ st.clock

/-- **A script is drained.** If the end of a script closes the window, a capture of it comes to an
end, after no more than `Script.turns` turns and polls. Whatever happens, the bytes that were handed
out and those that are left are the bytes of the script, in order; and all of them were handed out,
and all of their lines, unless the window was closed before the script was used up. -/
theorem script_drains (st : Script) (started duration pause : Nat)
    (hcloses : st.Closes (Stream.start started duration pause).deadline) :
    ∃ items s st' journal,
      Yields device.recorded (.start started duration pause) (st, []) items s (st', journal) ∧
      (∀ more p, collect device (st.turns + more) (.start started duration pause) st p =
        (items.foldl Progress.add p, s, st')) ∧
      st'.polls ≤ st.polls + st.turns ∧
      handedOut journal ++ st'.bytes = st.bytes ∧
      (¬Script.CutShort (Stream.start started duration pause).deadline st st' →
        handedOut journal = st.bytes ∧ linesIn items = Assembler.linesOf st.bytes) := by
  have hleft : (Stream.start started duration pause).left st < st.turns := by
    have hturns := st.work_add_lt_turns
    have hheld : (Stream.start started duration pause).assembler.held.count lineFeed = 0 := rfl
    have hqueue : (Stream.start started duration pause).queue.length = 0 := rfl
    have hphase : (Stream.start started duration pause).phase = .running := rfl
    rw [Stream.left, if_pos hphase, hheld, hqueue]
    split_ifs <;> omega
  have hstart : Draining (Stream.start started duration pause).deadline
      (st.polls + (Stream.start started duration pause).left st)
      (.start started duration pause) st :=
    ⟨rfl, hcloses, fun hclosed => absurd rfl hclosed, le_rfl⟩
  obtain ⟨items, s, st', hrun, hlast, hcollect⟩ :=
    exists_yields_of_lowers (fun s st h => Draining.step h) hstart hleft
  obtain ⟨journal, hrecorded, hfaithful, hqueue, hphase⟩ :=
    hrun.faithful (Stream.faithful_start started duration pause)
  have hbytes : handedOut journal ++ st'.bytes = st.bytes :=
    (keeps_bytes st.bytes).yields hrecorded rfl
  obtain ⟨played, hplayed, hcause⟩ := (keeps_accounts st).yields hrun ⟨[], rfl, fun h => .inl h⟩
  refine ⟨items, s, st', journal, hrecorded, hcollect, ?_, hbytes, fun hwhole => ?_⟩
  · have hpolls := hlast.polls
    omega
  · have hused : st'.IsUsedUp := by
      by_contra hremains
      refine hwhole ⟨hremains, ?_⟩
      obtain hcancelled | hlate := Script.isDue_iff.1 (hlast.due hphase)
      · obtain hbefore | hevent | hused := hcause hcancelled
        · exact .inl hbefore
        · exact .inr (.inl ⟨played, hplayed, hevent⟩)
        · exact absurd hused hremains
      · exact .inr (.inr hlate)
    have hall : handedOut journal = st.bytes := by
      rw [← hbytes, Script.bytes, hused.1, hused.2]
      simp
    have hlines := hfaithful.closed hphase
    rw [hqueue, List.append_nil, List.nil_append, hall] at hlines
    exact ⟨hall, hlines⟩

theorem Script.closes_start (st : Script) {started : Nat} (hstarted : started ≤ st.clock)
    (hshown : (started + st.duration) / 1000000000 ≤ lastSecond) (pause : Nat) :
    st.Closes (Stream.start started st.duration pause).deadline :=
  .inr ⟨started + st.duration, if_pos hshown, by omega⟩

/-- Bytes that are announced as none and then read only at the third attempt, a poll that fails,
bytes that are announced but never come, and more bytes announced than there are. -/
def reluctant : Script :=
  { events :=
      [⟨false, false, .bytes [0x61, 0x62, 0x0A] (some 0) (some 0) (some ⟨.other, "noise"⟩)⟩,
       ⟨false, false, .failure ⟨.interrupted, "again"⟩⟩,
       ⟨false, false, .bytes [] none (some 9) none⟩,
       ⟨false, false, .bytes [0x63, 0x64] (some 1) (some 7000) none⟩]
    ending := .deadline
    duration := 100 }

theorem script_drains_reluctant : reluctant.Closes (Stream.start 0 100 1).deadline ∧
    ∃ items s st' journal,
      Yields device.recorded (.start 0 100 1) (reluctant, []) items s (st', journal) ∧
      ¬Script.CutShort (Stream.start 0 100 1).deadline reluctant st' ∧
      handedOut journal = [0x61, 0x62, 0x0A, 0x63, 0x64] ∧ linesIn items = ["ab", "cd"] := by
  have hcloses : reluctant.Closes (Stream.start 0 100 1).deadline :=
    reluctant.closes_start le_rfl (by decide) 1
  obtain ⟨items, s, st', journal, hrun, hcollect, -, -, hdrained⟩ :=
    script_drains reluctant 0 100 1 hcloses
  have hlast : (collect device (reluctant.turns + 0) (.start 0 100 1) reluctant
      { console := {} }).2.2 = st' := congrArg (fun result => result.2.2) (hcollect 0 _)
  have hevents : (collect device (reluctant.turns + 0) (.start 0 100 1) reluctant
      { console := {} }).2.2.events.length = 0 := by decide +kernel
  have hwaiting : (collect device (reluctant.turns + 0) (.start 0 100 1) reluctant
      { console := {} }).2.2.waiting = [] := by decide +kernel
  have hlines : Assembler.linesOf reluctant.bytes = ["ab", "cd"] := by decide +kernel
  rw [hlast] at hevents hwaiting
  have hwhole : ¬Script.CutShort (Stream.start 0 100 1).deadline reluctant st' :=
    fun hcut => hcut.remains ⟨List.length_eq_zero_iff.1 hevents, hwaiting⟩
  obtain ⟨hbytes, hitems⟩ := hdrained hwhole
  exact ⟨hcloses, items, s, st', journal, hrun, hwhole, hbytes, hitems.trans hlines⟩

end BenchLedger.Capture
