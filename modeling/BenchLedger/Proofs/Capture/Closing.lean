import BenchLedger.Proofs.Capture.Faithful

/-!
# The end of a capture window

A stream may be asked for items in any way: a request can be cut off after some turns, and requests
can go on after the stream ended. `Asked` is such a sequence of requests, and `asked_closes` says
what the journal of any of them shows: reads only follow on polls, the check that closes the window
is the last call of all, and what was read until then is still handed out.

The invariant is `Windowed`. It is kept by one turn (`Moved.windowed`), hence by a request and by a
sequence of them.
-/

namespace BenchLedger.Capture

variable {σ : Type}

/-! ## Requests -/

/-- A stream that is asked for the next item any number of times, each time for at most some number
of turns, and all that it hands out. -/
inductive Asked (d : Device σ) (s : Stream) (st : σ) : List Item → Stream → σ → Prop
  | start : Asked d s st [] s st
  | next {items : List Item} {s₁ s₂ : Stream} {st₁ st₂ : σ} {turn : Turn}
      (before : Asked d s st items s₁ st₁) (fuel : Nat)
      (hnext : s₁.next d fuel st₁ = (turn, s₂, st₂)) : Asked d s st (items ++ turn.items) s₂ st₂

variable {d : Device σ} {s s' : Stream} {st st' : σ} {items : List Item}

theorem Asked.trans {s₁ : Stream} {st₁ : σ} {front : List Item} (h : Asked d s st front s₁ st₁)
    (h' : Asked d s₁ st₁ items s' st') : Asked d s st (front ++ items) s' st' := by
  induction h' with
  | start => rwa [List.append_nil]
  | next _ fuel hnext ih =>
    rw [← List.append_assoc]
    exact ih.next fuel hnext

theorem Yields.asked (h : Yields d s st items s' st') : ∃ s₁ st₁ fuel,
    Asked d s st items s₁ st₁ ∧ s₁.next d fuel st₁ = (.ended, s', st') := by
  induction h with
  | ended fuel hnext => exact ⟨_, _, fuel, .start, hnext⟩
  | line fuel hnext _ ih =>
    obtain ⟨s₁, st₁, more, hasked, hended⟩ := ih
    have hfirst := Asked.start.next fuel hnext
    exact ⟨s₁, st₁, more, hfirst.trans hasked, hended⟩
  | fault fuel hnext _ ih =>
    obtain ⟨s₁, st₁, more, hasked, hended⟩ := ih
    have hfirst := Asked.start.next fuel hnext
    exact ⟨s₁, st₁, more, hfirst.trans hasked, hended⟩

namespace Stream

theorem next_recorded (d : Device σ) (fuel : Nat) (s : Stream) (st : σ) (journal : List Call) :
    ∃ journal', s.next d.recorded fuel (st, journal) =
      ((s.next d fuel st).1, (s.next d fuel st).2.1, (s.next d fuel st).2.2, journal') := by
  obtain ⟨journal', hrecorded, -⟩ :=
    @next_keeps _ s journal [] d (fun _ _ _ => True) (fun _ _ => trivial) fuel st trivial
  exact ⟨journal', hrecorded⟩

end Stream

theorem Asked.recorded (h : Asked d s st items s' st') (journal : List Call) :
    ∃ journal', Asked d.recorded s (st, journal) items s' (st', journal') := by
  induction h with
  | start => exact ⟨journal, .start⟩
  | @next _ s₁ _ st₁ _ _ _ fuel hnext ih =>
    obtain ⟨journal₁, hasked⟩ := ih
    obtain ⟨journal', hrecorded⟩ := Stream.next_recorded d fuel s₁ st₁ journal₁
    rw [hnext] at hrecorded
    exact ⟨journal', hasked.next fuel hrecorded⟩

theorem Asked.keeps {P : Stream → List Call → List Item → Prop}
    (hkeep : ∀ {s s' turn journal calls out}, Stream.Moved s turn s' calls → P s journal out →
      P s' (journal ++ calls) (out ++ turn.items))
    {journal : List Call} {x : σ × List Call}
    (h : Asked d.recorded s (st, journal) items s' x) (hstart : P s journal []) :
    P s' x.2 items := by
  induction h with
  | start => exact hstart
  | @next _ s₁ _ x₁ _ _ _ fuel hnext ih =>
    obtain ⟨journal', hrecorded, hkept⟩ := Stream.next_keeps d hkeep fuel x₁.1 ih
    have hresult := hrecorded.symm.trans hnext
    generalize s₁.next d fuel x₁.1 = result at hresult hkept
    cases hresult
    exact hkept

/-! ## What the journal shows -/

/-- A look at the request to stop, or at the clock, that closes a window. -/
def Call.Closes (deadline : Option Nat) : Call → Prop
  | .asked answer => answer = true
  | .timed now => ∃ closing, deadline = some closing ∧ closing ≤ now
  | .polled _ | .read _ _ | .slept _ => False

/-- Every read comes right after a poll that announced bytes, with a buffer for as many of them as
fit. So there is at most one read for each poll. -/
def ReadsPolled (journal : List Call) : Prop :=
  ∀ earlier size answer later, journal = earlier ++ .read size answer :: later →
    ∃ before n, earlier = before ++ [.polled (.ok n)] ∧ 0 < n ∧ size = min n bufferSize

/-- What the bytes after the last line feed become when the window closes. -/
def lastItem (bytes : List UInt8) : List Item := (lineOf? (unended bytes)).toList.map .line

theorem ReadsPolled.of_noRead {calls : List Call} (h : ∀ size answer, .read size answer ∉ calls) :
    ReadsPolled calls := by
  intro earlier size answer later hcalls
  exact absurd (by simp [hcalls]) (h size answer)

theorem ReadsPolled.append {xs ys : List Call} (hxs : ReadsPolled xs) (hys : ReadsPolled ys) :
    ReadsPolled (xs ++ ys) := by
  intro earlier size answer later hsplit
  rcases List.append_eq_append_iff.1 hsplit with ⟨front, rfl, hrest⟩ | ⟨rest, hfront, hrest⟩
  · obtain ⟨before, n, rfl, hn⟩ := hys front size answer later hrest
    exact ⟨xs ++ before, n, by simp, hn⟩
  · cases rest with
    | nil =>
      obtain ⟨before, n, hnil, -⟩ := hys [] size answer later hrest.symm
      simp at hnil
    | cons call rest =>
      cases hrest
      exact hxs earlier size answer rest hfront

theorem Polled.readsPolled {calls : List Call} {answer : Except Fault (List UInt8)}
    (h : Polled calls answer) : ReadsPolled calls := by
  have hread {n : Nat} (hn : 0 < n) (brought : Except Fault (List UInt8)) :
      ReadsPolled [.polled (.ok n), .read (min n bufferSize) brought] := by
    intro earlier size answer later hsplit
    rcases earlier with _ | ⟨first, _ | ⟨second, rest⟩⟩
    · cases hsplit
    · cases hsplit
      exact ⟨[], n, rfl, hn, rfl⟩
    · simp at hsplit
  cases h with
  | failed | idle => exact .of_noRead (by simp)
  | brought hn chunk => exact hread hn _
  | passed hn | broken hn => exact hread hn _

theorem Polled.notCloses {calls : List Call} {answer : Except Fault (List UInt8)}
    (h : Polled calls answer) (deadline : Option Nat) : ∀ call ∈ calls, ¬call.Closes deadline := by
  cases h <;> simp [Call.Closes]

theorem Polled.notTimed {calls : List Call} {answer : Except Fault (List UInt8)}
    (h : Polled calls answer) (now : Nat) : .timed now ∉ calls := by
  cases h <;> simp

namespace Checked

variable {deadline : Option Nat} {checks : List Call} {phase : Phase}

theorem noRead {phase : Option Phase} (h : Checked deadline checks phase) (size : Nat)
    (answer : Except Fault (List UInt8)) : .read size answer ∉ checks := by
  cases h <;> simp

theorem isSome_of_timed {phase : Option Phase} (h : Checked deadline checks phase) {now : Nat}
    (hnow : .timed now ∈ checks) : deadline.isSome := by
  cases h with
  | stopped | endless => simp at hnow
  | expired hd | early hd => simp [hd]

theorem notCloses (h : Checked deadline checks none) : ∀ call ∈ checks, ¬call.Closes deadline := by
  cases h with
  | early hd hlt => simp [Call.Closes, hd, hlt]
  | endless => simp [Call.Closes]

theorem closing (h : Checked deadline checks (some phase)) : ∃ looks call,
    checks = looks ++ [call] ∧ call.Closes deadline ∧ (∀ look ∈ looks, ¬look.Closes deadline) ∧
    (phase = .stopped ↔ call = .asked true) := by
  cases h with
  | stopped => exact ⟨[], .asked true, rfl, rfl, by simp, by simp⟩
  | @expired closing now hd hle =>
    exact ⟨[.asked false], .timed now, rfl, ⟨closing, hd, hle⟩, by simp [Call.Closes], by simp⟩

end Checked

/-! ## The invariant -/

namespace Stream

/-- A closed stream has made its last call, which closed it. Everything that was complete by then
was handed out before, and the queue holds what is still to come. -/
structure Shut (s : Stream) (journal : List Call) (out : List Item) : Prop where
  check : ∃ earlier call, journal = earlier ++ [call] ∧ call.Closes s.deadline ∧
    (∀ look ∈ earlier, ¬look.Closes s.deadline) ∧ (s.phase = .stopped ↔ call = .asked true)
  rest : ∃ before, linesIn before = completeLines (handedOut journal) ∧ before <+: out ∧
    out ++ s.queue.map .line = before ++ lastItem (handedOut journal)

/-- What the journal of a stream shows of its window. -/
structure Windowed (s : Stream) (journal : List Call) (out : List Item) : Prop where
  reads : ReadsPolled journal
  timed : ∀ now, .timed now ∈ journal → s.deadline.isSome
  running : s.phase = .running → ∀ call ∈ journal, ¬call.Closes s.deadline
  closed : s.phase ≠ .running → s.Shut journal out

variable {journal calls : List Call} {out : List Item} {turn : Turn}

theorem windowed_start (started duration pause : Nat) :
    Windowed (start started duration pause) [] [] := by
  refine ⟨.of_noRead (by simp), by simp, by simp, ?_⟩
  intro hclosed
  exact absurd rfl hclosed

theorem Windowed.hands (h : Windowed s journal out) {text : String} {rest : List String}
    (hq : s.queue = text :: rest) :
    Windowed { s with queue := rest } journal (out ++ [.line text]) := by
  refine ⟨h.reads, h.timed, h.running, fun hp => ?_⟩
  obtain ⟨hcheck, before, hlines, hprefix, hall⟩ := h.closed hp
  refine ⟨hcheck, before, hlines, hprefix.trans (List.prefix_append _ _), ?_⟩
  rw [← hall, hq]
  simp

theorem Windowed.open (h : Windowed s journal out) (hp : s.phase = .running)
    (hreads : ReadsPolled calls) (htimed : ∀ now, .timed now ∈ calls → s.deadline.isSome)
    (hcalls : ∀ call ∈ calls, ¬call.Closes s.deadline) (hdeadline : s'.deadline = s.deadline)
    (hp' : s'.phase = .running) {out' : List Item} : Windowed s' (journal ++ calls) out' := by
  refine ⟨h.reads.append hreads, ?_, ?_, fun hclosed => absurd hp' hclosed⟩
  · intro now hnow
    rw [hdeadline]
    exact (List.mem_append.1 hnow).elim (h.timed now) (htimed now)
  · intro _ call hcall
    rw [hdeadline]
    exact (List.mem_append.1 hcall).elim (h.running hp call) (hcalls call)

theorem Windowed.close (h : Windowed s journal out) (hf : Faithful s journal out)
    (hq : s.queue = []) (hp : s.phase = .running) {phase : Phase} (hc : Checked s.deadline calls (some phase)) :
    Windowed (s.close phase) (journal ++ calls) out := by
  have hreads : ReadsPolled calls := .of_noRead hc.noRead
  refine ⟨h.reads.append hreads, ?_, fun hp' => absurd hp' hc.ne_running, fun _ => ⟨?_, out, ?_⟩⟩
  · intro now hnow
    exact (List.mem_append.1 hnow).elim (h.timed now) hc.isSome_of_timed
  · obtain ⟨looks, call, rfl, hcloses, hlooks, hphase⟩ := hc.closing
    refine ⟨journal ++ looks, call, by simp, hcloses, ?_, hphase⟩
    intro look hlook
    exact (List.mem_append.1 hlook).elim (h.running hp look) (hlooks look)
  · have hlines := hf.running hp
    rw [hq, List.append_nil] at hlines
    rw [handedOut_append, hc.quiet.1, List.append_nil]
    refine ⟨hlines, List.prefix_refl out, ?_⟩
    simp only [Stream.close, Assembler.flush]
    rw [hq, List.nil_append, hf.held hp, lastItem]

theorem Moved.windowed (hmoved : Moved s turn s' calls)
    (h : Faithful s journal out ∧ Windowed s journal out) :
    Faithful s' (journal ++ calls) (out ++ turn.items) ∧
      Windowed s' (journal ++ calls) (out ++ turn.items) := by
  refine ⟨hmoved.faithful h.1, ?_⟩
  obtain ⟨hf, hw⟩ := h
  have hslept : ReadsPolled [.slept s.pause] := .of_noRead (by simp)
  cases hmoved with
  | hands hq => simpa [Turn.items] using hw.hands hq
  | ends => simpa [Turn.items] using hw
  | closes hq hp hc => simpa [Turn.items] using hw.close hf hq hp hc
  | fails hq hp hc hpoll | waits hq hp hc hpoll =>
    have hchecks : ReadsPolled _ := .of_noRead hc.noRead
    refine hw.open hp ((hchecks.append hpoll.readsPolled).append hslept) ?_ ?_ rfl hp
    · intro now hnow
      simp only [List.mem_append, hpoll.notTimed, List.mem_singleton, reduceCtorEq,
        or_false] at hnow
      exact hc.isSome_of_timed hnow
    · intro call hcall
      simp only [List.mem_append, List.mem_singleton, or_assoc] at hcall
      rcases hcall with hcheck | hpolled | rfl
      · exact hc.notCloses call hcheck
      · exact hpoll.notCloses _ call hpolled
      · exact id
  | @takes hq hp _ _ hc chunk hne hpoll =>
    have hchecks : ReadsPolled _ := .of_noRead hc.noRead
    have hdeadline : (s.accept chunk).deadline = s.deadline := rfl
    refine hw.open hp (hchecks.append hpoll.readsPolled) ?_ ?_ hdeadline hp
    · intro now hnow
      simp only [List.mem_append, hpoll.notTimed, or_false] at hnow
      exact hc.isSome_of_timed hnow
    · intro call hcall
      exact (List.mem_append.1 hcall).elim (hc.notCloses call) (hpoll.notCloses _ call)

theorem yields_of_closed (d : Device σ) (st : σ) (hp : s.phase ≠ .running) :
    Yields d s st (s.queue.map .line) { s with queue := [] } st := by
  generalize hqueue : s.queue = queue
  induction queue generalizing s with
  | nil =>
    have hsame : { s with queue := [] } = s := by rw [← hqueue]
    rw [hsame]
    exact .ended 1 (by simp [next, step, hp, hqueue])
  | cons text rest ih =>
    have hrest : Yields d { s with queue := rest } st (rest.map .line) { s with queue := [] } st :=
      ih hp rfl
    exact .line 1 (by simp [next, step, hqueue]) hrest

theorem next_of_ended (d : Device σ) (st : σ) (fuel : Nat) (hq : s.queue = [])
    (hp : s.phase ≠ .running) : s.next d (fuel + 1) st = (.ended, s, st) := by
  simp [next, step, hq, hp]

end Stream

/-! ## Any requests -/

theorem Stream.Moved.deadline {turn : Turn} {calls : List Call}
    (hmoved : Stream.Moved s turn s' calls) : s'.deadline = s.deadline := by
  cases hmoved <;> rfl

section asked

variable {started duration pause : Nat} {journal : List Call}

theorem Asked.deadline
    (h : Asked d.recorded (.start started duration pause) (st, []) items s (st', journal)) :
    s.deadline = (Stream.start started duration pause).deadline :=
  h.keeps (P := fun s _ _ => s.deadline = (Stream.start started duration pause).deadline)
    (fun hmoved hs => hmoved.deadline.trans hs) rfl

theorem Asked.windowed
    (h : Asked d.recorded (.start started duration pause) (st, []) items s (st', journal)) :
    s.Windowed journal items := by
  have hstart := And.intro (Stream.faithful_start started duration pause)
    (Stream.windowed_start started duration pause)
  exact (h.keeps (P := fun s journal out => s.Faithful journal out ∧ s.Windowed journal out)
    Stream.Moved.windowed hstart).2

/-- Once a look closed the window, no call is made any more, and what is left of the complete lines
and of the bytes after them is what the stream still hands out. -/
theorem Asked.shut
    (h : Asked d.recorded (.start started duration pause) (st, []) items s (st', journal))
    {earlier later : List Call} {call : Call} (hjournal : journal = earlier ++ call :: later)
    (hcall : call.Closes s.deadline) : later = [] ∧ ∃ before rest s',
      linesIn before = completeLines (handedOut journal) ∧ before <+: items ∧
      items ++ rest = before ++ lastItem (handedOut journal) ∧
      Yields d.recorded s (st', journal) rest s' (st', journal) := by
  have hw := h.windowed
  have hmem : call ∈ journal := by simp [hjournal]
  have hp : s.phase ≠ .running := fun hrunning => hw.running hrunning call hmem hcall
  obtain ⟨⟨looks, last, hlast, -, hlooks, -⟩, before, hlines, hprefix, hall⟩ := hw.closed hp
  refine ⟨?_, before, _, _, hlines, hprefix, hall, Stream.yields_of_closed d.recorded _ hp⟩
  rcases append_singleton_eq_append_cons (hlast.symm.trans hjournal) with ⟨rfl, -⟩ | ⟨rest, rfl⟩
  · have hsame := List.append_cancel_left (hlast.symm.trans hjournal)
    exact (List.cons.inj hsame).2.symm
  · exact absurd hcall (hlooks call (by simp))

theorem Asked.ended
    (h : Asked d.recorded (.start started duration pause) (st, []) items s (st', journal))
    {fuel : Nat} {s₁ : Stream} {st₁ : σ} {journal₁ : List Call}
    (hnext : s.next d.recorded fuel (st', journal) = (.ended, s₁, st₁, journal₁)) :
    (∀ more, s₁.next d.recorded (more + 1) (st₁, journal₁) = (.ended, s₁, st₁, journal₁)) ∧
    ∃ earlier call, journal₁ = earlier ++ [call] ∧ call.Closes s₁.deadline ∧
      (s₁.phase = .stopped ↔ call = .asked true) := by
  obtain ⟨hq, hp⟩ := Stream.next_ended d.recorded hnext
  refine ⟨fun more => Stream.next_of_ended d.recorded _ more hq hp, ?_⟩
  obtain ⟨earlier, call, hcheck, hcloses, -, hphase⟩ :=
    ((h.next fuel hnext).windowed.closed hp).check
  exact ⟨earlier, call, hcheck, hcloses, hphase⟩

end asked

/-- **A capture window closes cleanly.** However a stream over any device is asked for items, its
calls are a journal in which every read comes right after a poll that announced bytes and takes as
many as fit. If some look at the request to stop or at the clock closes the window, it is the last
call of all; until then the complete lines were handed out, and the line of the other bytes is all
that follows. Once the stream ended, it has ended for good, and it was stopped if and only if the
last look saw the request to stop. A deadline past the range of the clock is none. -/
theorem asked_closes (d : Device σ) (started duration pause : Nat) (st : σ) :
    (∀ items s st', Asked d (.start started duration pause) st items s st' → ∃ journal,
      Asked d.recorded (.start started duration pause) (st, []) items s (st', journal)) ∧
    ∀ items s st' journal,
      Asked d.recorded (.start started duration pause) (st, []) items s (st', journal) →
      ReadsPolled journal ∧
      (∀ earlier call later, journal = earlier ++ call :: later →
        call.Closes (Stream.start started duration pause).deadline →
        later = [] ∧ ∃ before rest s', linesIn before = completeLines (handedOut journal) ∧
          before <+: items ∧ items ++ rest = before ++ lastItem (handedOut journal) ∧
          Yields d.recorded s (st', journal) rest s' (st', journal)) ∧
      (∀ fuel s₁ st₁ journal₁,
        s.next d.recorded fuel (st', journal) = (.ended, s₁, st₁, journal₁) →
        (∀ more, s₁.next d.recorded (more + 1) (st₁, journal₁) = (.ended, s₁, st₁, journal₁)) ∧
        ∃ earlier call, journal₁ = earlier ++ [call] ∧
          call.Closes (Stream.start started duration pause).deadline ∧
          (s₁.phase = .stopped ↔ call = .asked true)) ∧
      (lastSecond < (started + duration) / 1000000000 →
        (∀ now, .timed now ∉ journal) ∧ ∀ fuel s₁ st₁ journal₁,
          s.next d.recorded fuel (st', journal) = (.ended, s₁, st₁, journal₁) →
          s₁.phase = .stopped) := by
  refine ⟨fun items s st' h => h.recorded [], fun items s st' journal h => ?_⟩
  have hended {fuel : Nat} {s₁ : Stream} {st₁ : σ} {journal₁ : List Call}
      (hnext : s.next d.recorded fuel (st', journal) = (.ended, s₁, st₁, journal₁)) :
      s₁.deadline = (Stream.start started duration pause).deadline :=
    (h.next fuel hnext).deadline
  refine ⟨h.windowed.reads, ?_, ?_, fun hlate => ?_⟩
  · intro earlier call later hjournal hcall
    rw [← h.deadline] at hcall
    exact h.shut hjournal hcall
  · intro fuel s₁ st₁ journal₁ hnext
    rw [← hended hnext]
    exact h.ended hnext
  · have hnone : (Stream.start started duration pause).deadline = none :=
      if_neg (Nat.not_le.2 hlate)
    refine ⟨fun now hnow => ?_, fun fuel s₁ st₁ journal₁ hnext => ?_⟩
    · have hsome := h.windowed.timed now hnow
      rw [h.deadline, hnone] at hsome
      cases hsome
    · obtain ⟨-, earlier, call, -, hcloses, hphase⟩ := h.ended hnext
      rw [hended hnext, hnone] at hcloses
      rw [hphase]
      -- Without a deadline, no look at the clock closes the window.
      cases call with
      | asked answer => exact congrArg Call.asked hcloses
      | timed now =>
        obtain ⟨closing, hclosing, -⟩ := hcloses
        cases hclosing
      | polled | read | slept => exact hcloses.elim

/-- The token is cancelled while a line and the start of another one arrive. -/
def hastyStop : Script :=
  { events := [⟨false, true, .bytes [0x61, 0x0A, 0x62] none none none⟩] }

theorem asked_closes_hastyStop : ∃ s st' journal,
    Asked Script.device.recorded (.start 0 (lastSecond * 2000000000) 0) (hastyStop, [])
      [.line "a", .line "b"] s (st', journal) ∧
    ReadsPolled journal ∧ (∀ now, .timed now ∉ journal) ∧ s.phase = .stopped := by
  have hitems : items? Script.device 10 10 (.start 0 (lastSecond * 2000000000) 0) hastyStop =
      some [.line "a", .line "b"] := by decide +kernel
  have hlate : lastSecond < (0 + lastSecond * 2000000000) / 1000000000 := by decide +kernel
  obtain ⟨s', st', hrun⟩ := exists_yields_of_items? hitems
  obtain ⟨s, st₁, fuel, hasked, hended⟩ := hrun.asked
  obtain ⟨journal, hrecorded⟩ :=
    (asked_closes Script.device _ _ _ _).1 _ _ _ (hasked.next fuel hended)
  obtain ⟨hreads, -, -, hendless⟩ := (asked_closes Script.device _ _ _ _).2 _ _ _ _ hrecorded
  obtain ⟨htimed, hstopped⟩ := hendless hlate
  have hlast : s'.next Script.device.recorded 1 (st', journal) = (.ended, s', st', journal) := by
    obtain ⟨hq, hp⟩ := Stream.next_ended Script.device hended
    exact Stream.next_of_ended _ _ 0 hq hp
  exact ⟨s', st', journal, by simpa [Turn.items] using hrecorded, hreads, htimed,
    hstopped _ _ _ _ hlast⟩

end BenchLedger.Capture
