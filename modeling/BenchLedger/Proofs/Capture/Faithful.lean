import BenchLedger.Proofs.Capture.Assembly
import BenchLedger.Proofs.Capture.Journal
import BenchLedger.Capture.Script
import BenchLedger.Transcript.File

/-!
# Faithful capture

A capture hands out the lines of exactly the bytes that its reads handed out, and reports exactly the
failures that are to be reported, each between the lines that were complete before it and those that
were not. This is `yields_faithful`, for any device.

What carries it is `Faithful`, a relation between a stream, the journal of its calls and all that it
handed out: the held bytes are those after the last line feed, and what was handed out together with
the queue are the complete lines. `Moved.faithful` keeps it in one turn; `next_keeps`, which takes
along whatever every turn keeps, and `Yields.faithful` carry it through a run.
-/

namespace BenchLedger.Capture

/-! ## Runs -/

/-- What a stream hands out before it ends. -/
inductive Item
  | line (text : String)
  | fault (f : Fault)
  deriving DecidableEq

def Item.line? : Item → Option String
  | .line text => some text
  | .fault _ => none

def Item.fault? : Item → Option Fault
  | .line _ => none
  | .fault f => some f

def linesIn (items : List Item) : List String := items.filterMap Item.line?

def faultsIn (items : List Item) : List Fault := items.filterMap Item.fault?

/-- What a turn hands out. -/
def Turn.items : Turn → List Item
  | .line text => [.line text]
  | .fault f => [.fault f]
  | .again | .ended => []

variable {σ : Type}

/-- A stream that is asked for the next item until it ends, and all that it hands out. -/
inductive Yields (d : Device σ) : Stream → σ → List Item → Stream → σ → Prop
  | ended {s s' : Stream} {st st' : σ} (fuel : Nat)
      (hnext : s.next d fuel st = (.ended, s', st')) : Yields d s st [] s' st'
  | line {s s₁ s' : Stream} {st st₁ st' : σ} {text : String} {items : List Item} (fuel : Nat)
      (hnext : s.next d fuel st = (.line text, s₁, st₁)) (rest : Yields d s₁ st₁ items s' st') :
      Yields d s st (.line text :: items) s' st'
  | fault {s s₁ s' : Stream} {st st₁ st' : σ} {f : Fault} {items : List Item} (fuel : Nat)
      (hnext : s.next d fuel st = (.fault f, s₁, st₁)) (rest : Yields d s₁ st₁ items s' st') :
      Yields d s st (.fault f :: items) s' st'

/-- Each failure was reported by one call, after exactly the lines that earlier calls completed and
after exactly the failures of earlier calls. -/
def InOrder (journal : List Call) (items : List Item) : Prop :=
  ∀ before f after, items = before ++ .fault f :: after →
    ∃ earlier call later, journal = earlier ++ call :: later ∧ call.failure? = some f ∧
      linesIn before = completeLines (handedOut earlier) ∧ faultsIn before = failures earlier

section items

variable (xs ys : List Item)

@[simp] theorem linesIn_append : linesIn (xs ++ ys) = linesIn xs ++ linesIn ys :=
  List.filterMap_append

@[simp] theorem faultsIn_append : faultsIn (xs ++ ys) = faultsIn xs ++ faultsIn ys :=
  List.filterMap_append

@[simp] theorem linesIn_line (text : String) : linesIn [.line text] = [text] := rfl

@[simp] theorem linesIn_fault (f : Fault) : linesIn [.fault f] = [] := rfl

@[simp] theorem faultsIn_line (text : String) : faultsIn [.line text] = [] := rfl

@[simp] theorem faultsIn_fault (f : Fault) : faultsIn [.fault f] = [f] := rfl

end items

theorem append_singleton_eq_append_cons {α : Type} {xs before after : List α} {x y : α}
    (h : xs ++ [x] = before ++ y :: after) :
    (xs = before ∧ x = y) ∨ ∃ rest, xs = before ++ y :: rest := by
  rcases List.eq_nil_or_concat after with rfl | ⟨rest, z, rfl⟩
  · obtain ⟨hxs, hx⟩ := List.append_inj' h rfl
    exact .inl ⟨hxs, by simpa using hx⟩
  · have hsplit : xs ++ [x] = (before ++ y :: rest) ++ [z] := by simpa using h
    exact .inr ⟨rest, (List.append_inj' hsplit rfl).1⟩

namespace InOrder

variable {journal : List Call} {items : List Item}

theorem append (h : InOrder journal items) (calls : List Call) :
    InOrder (journal ++ calls) items := by
  intro before f after hitems
  obtain ⟨earlier, call, later, rfl, hrest⟩ := h before f after hitems
  exact ⟨earlier, call, later ++ calls, by simp, hrest⟩

theorem snoc_line (h : InOrder journal items) (text : String) :
    InOrder journal (items ++ [.line text]) := by
  intro before f after hitems
  rcases append_singleton_eq_append_cons hitems with ⟨-, hline⟩ | ⟨rest, hrest⟩
  · cases hline
  · exact h before f rest hrest

theorem snoc_fault (h : InOrder journal items) {f : Fault} {quiet later : List Call} {call : Call}
    (hcall : call.failure? = some f)
    (hlines : linesIn items = completeLines (handedOut (journal ++ quiet)))
    (hfaults : faultsIn items = failures (journal ++ quiet)) :
    InOrder (journal ++ (quiet ++ call :: later)) (items ++ [.fault f]) := by
  intro before f' after hitems
  rcases append_singleton_eq_append_cons hitems with ⟨rfl, hf⟩ | ⟨rest, hrest⟩
  · cases hf
    exact ⟨journal ++ quiet, call, later, by simp, hcall, hlines, hfaults⟩
  · exact h.append _ before f' rest hrest

end InOrder

/-! ## The calls of one turn -/

theorem linesOf_eq (bytes : List UInt8) :
    Assembler.linesOf bytes = completeLines bytes ++ (lineOf? (unended bytes)).toList := by
  rw [Assembler.linesOf, Assembler.push_eq]
  rfl

theorem Checked.quiet {deadline : Option Nat} {checks : List Call} {phase : Option Phase}
    (h : Checked deadline checks phase) : handedOut checks = [] ∧ failures checks = [] := by
  cases h <;> exact ⟨rfl, rfl⟩

theorem Checked.ne_running {deadline : Option Nat} {checks : List Call} {phase : Phase}
    (h : Checked deadline checks (some phase)) : phase ≠ .running := by
  cases h <;> decide

theorem Polled.of_ok {calls : List Call} {chunk : List UInt8} (h : Polled calls (.ok chunk)) :
    handedOut calls = chunk ∧ failures calls = [] := by
  cases h with
  | idle => exact ⟨rfl, rfl⟩
  | brought _ chunk => exact ⟨by simp [handedOut, Call.bytes], rfl⟩
  | @passed n _ f hf =>
    have hpassing : f.kind = .timedOut ∨ f.kind = .interrupted := by
      simpa [Fault.isPassing] using hf
    exact ⟨rfl, by simp [failures, Call.failure?, hpassing]⟩

theorem Polled.of_error {calls : List Call} {f : Fault} (h : Polled calls (.error f)) :
    ∃ quiet call, calls = quiet ++ [call] ∧ call.failure? = some f ∧ call.bytes = [] ∧
      handedOut quiet = [] ∧ failures quiet = [] := by
  cases h with
  | failed f => exact ⟨[], _, rfl, rfl, rfl, rfl, rfl⟩
  | broken _ hf =>
    have hlasting : ¬(f.kind = .timedOut ∨ f.kind = .interrupted) := by
      simpa [Fault.isPassing] using hf
    exact ⟨[_], _, rfl, by simp [Call.failure?, hlasting], rfl, rfl, rfl⟩

/-! ## The invariant -/

namespace Stream

/-- What a stream, the journal of its calls and all that it handed out have to do with each other. -/
structure Faithful (s : Stream) (journal : List Call) (out : List Item) : Prop where
  held : s.phase = .running → s.assembler.held = unended (handedOut journal)
  running : s.phase = .running → linesIn out ++ s.queue = completeLines (handedOut journal)
  closed : s.phase ≠ .running → linesIn out ++ s.queue = Assembler.linesOf (handedOut journal)
  faults : faultsIn out = failures journal
  order : InOrder journal out

variable {s s' : Stream} {journal calls : List Call} {out : List Item} {turn : Turn}

theorem faithful_start (started duration pause : Nat) :
    Faithful (start started duration pause) [] [] := by
  refine ⟨fun _ => rfl, fun _ => (completeLines_of_notMem List.not_mem_nil).symm, ?_, rfl, ?_⟩
  · intro hclosed
    exact absurd rfl hclosed
  · intro before f after hitems
    simp at hitems

theorem Faithful.hands (h : Faithful s journal out) {text : String} {rest : List String}
    (hq : s.queue = text :: rest) :
    Faithful { s with queue := rest } journal (out ++ [.line text]) := by
  have hlines : linesIn (out ++ [.line text]) ++ rest = linesIn out ++ s.queue := by
    simp [hq]
  have hfaults : faultsIn (out ++ [.line text]) = faultsIn out := by simp
  exact ⟨h.held, fun hp => hlines.trans (h.running hp), fun hp => hlines.trans (h.closed hp),
    hfaults.trans h.faults, h.order.snoc_line text⟩

theorem Faithful.quiet (h : Faithful s journal out) (hbytes : handedOut calls = [])
    (hfaults : failures calls = []) : Faithful s (journal ++ calls) out := by
  have hhandedOut : handedOut (journal ++ calls) = handedOut journal := by simp [hbytes]
  refine ⟨?_, ?_, ?_, by simp [h.faults, hfaults], h.order.append calls⟩
  · rw [hhandedOut]
    exact h.held
  · rw [hhandedOut]
    exact h.running
  · rw [hhandedOut]
    exact h.closed

theorem Faithful.close (h : Faithful s journal out) (hq : s.queue = []) (hp : s.phase = .running)
    {phase : Phase} (hclosed : phase ≠ .running) : Faithful (s.close phase) journal out := by
  refine ⟨fun hrunning => absurd hrunning hclosed, fun hrunning => absurd hrunning hclosed,
    fun _ => ?_, h.faults, h.order⟩
  have hlines := h.running hp
  rw [hq, List.append_nil] at hlines
  simp only [Stream.close, Assembler.flush]
  rw [hq, List.nil_append, hlines, h.held hp, linesOf_eq]

theorem Faithful.accept (h : Faithful s journal out) (hq : s.queue = []) (hp : s.phase = .running)
    {chunk : List UInt8} (hbytes : handedOut calls = chunk) (hfaults : failures calls = []) :
    Faithful (s.accept chunk) (journal ++ calls) out := by
  have hlines := h.running hp
  rw [hq, List.append_nil] at hlines
  have hpush := Assembler.push_eq s.assembler chunk
  refine ⟨fun _ => ?_, fun _ => ?_, fun hclosed => absurd hp hclosed, ?_, h.order.append calls⟩
  · rw [handedOut_append, hbytes, unended_append, ← h.held hp, Stream.accept, hpush]
  · rw [handedOut_append, hbytes, completeLines_append, ← h.held hp, ← hlines, Stream.accept, hpush,
      hq]
    rfl
  · rw [h.faults, failures_append, hfaults, List.append_nil]

theorem Faithful.fault (h : Faithful s journal out) (hq : s.queue = []) (hp : s.phase = .running)
    {checks : List Call} (hchecks : handedOut checks = [] ∧ failures checks = []) {f : Fault}
    (hpoll : Polled calls (.error f)) (nanos : Nat) :
    Faithful s (journal ++ (checks ++ calls ++ [.slept nanos])) (out ++ [.fault f]) := by
  obtain ⟨quiet, call, rfl, hcall, hnone, hbytes, hfailures⟩ := hpoll.of_error
  have hlines := h.running hp
  rw [hq, List.append_nil] at hlines
  have hhandedOut :
      handedOut (journal ++ (checks ++ (quiet ++ [call]) ++ [.slept nanos])) = handedOut journal := by
    have hslept : (Call.slept nanos).bytes = [] := rfl
    have hlast : handedOut [call, .slept nanos] = [] := by simp [handedOut, hnone, hslept]
    simp [hchecks.1, hbytes, hlast]
  have hsame : linesIn (out ++ [.fault f]) = linesIn out := by simp
  refine ⟨?_, ?_, ?_, ?_, ?_⟩
  · rw [hhandedOut]
    exact h.held
  · rw [hhandedOut, hsame]
    exact h.running
  · rw [hhandedOut, hsame]
    exact h.closed
  · have hslept : (Call.slept nanos).failure? = none := rfl
    have hlast : failures [call, .slept nanos] = [f] := by
      rw [failures, List.filterMap_cons_some hcall, List.filterMap_cons_none hslept]
      rfl
    simp [h.faults, hchecks.2, hfailures, hlast]
  · have hcalls : checks ++ (quiet ++ [call]) ++ [.slept nanos] =
        (checks ++ quiet) ++ call :: [.slept nanos] := by simp
    rw [hcalls]
    refine h.order.snoc_fault hcall ?_ ?_
    · rw [hlines, handedOut_append, handedOut_append, hchecks.1, hbytes]
      simp
    · rw [h.faults, failures_append, failures_append, hchecks.2, hfailures]
      simp

theorem Moved.faithful (hmoved : Moved s turn s' calls) (h : Faithful s journal out) :
    Faithful s' (journal ++ calls) (out ++ turn.items) := by
  cases hmoved with
  | hands hq => simpa [Turn.items] using h.hands hq
  | ends hq hp => simpa [Turn.items] using h
  | closes hq hp hc =>
    have hclosed := (h.close hq hp hc.ne_running).quiet hc.quiet.1 hc.quiet.2
    simpa [Turn.items] using hclosed
  | fails hq hp hc hpoll => exact h.fault hq hp hc.quiet hpoll s.pause
  | waits hq hp hc hpoll =>
    have hslept : handedOut [.slept s.pause] = [] ∧ failures [.slept s.pause] = [] := ⟨rfl, rfl⟩
    rw [Turn.items, List.append_nil]
    refine h.quiet ?_ ?_
    · simp [hc.quiet.1, hpoll.of_ok.1, hslept.1]
    · simp [hc.quiet.2, hpoll.of_ok.2, hslept.2]
  | takes hq hp hc hne hpoll =>
    rw [Turn.items, List.append_nil]
    refine h.accept hq hp ?_ ?_
    · simp [hc.quiet.1, hpoll.of_ok.1]
    · simp [hc.quiet.2, hpoll.of_ok.2]

variable (d : Device σ) {st st' : σ} {items : List Item}

theorem next_keeps {P : Stream → List Call → List Item → Prop}
    (hkeep : ∀ {s s' turn journal calls out}, Moved s turn s' calls → P s journal out →
      P s' (journal ++ calls) (out ++ turn.items))
    (fuel : Nat) (st : σ) (h : P s journal out) : ∃ journal',
    s.next d.recorded fuel (st, journal) =
      ((s.next d fuel st).1, (s.next d fuel st).2.1, (s.next d fuel st).2.2, journal') ∧
    P (s.next d fuel st).2.1 journal' (out ++ (s.next d fuel st).1.items) := by
  induction fuel generalizing s st journal with
  | zero => exact ⟨journal, rfl, by simpa [next, Turn.items] using h⟩
  | succ fuel ih =>
    obtain ⟨calls, hmoved, hstep⟩ := step_recorded d st journal s
    have hkept := hkeep hmoved h
    unfold next
    rw [hstep]
    generalize s.step d st = result at hmoved hkept
    obtain ⟨turn, s₁, st₁⟩ := result
    cases turn with
    | again =>
      rw [Turn.items, List.append_nil] at hkept
      exact ih _ hkept
    | line text => exact ⟨_, rfl, hkept⟩
    | fault f => exact ⟨_, rfl, hkept⟩
    | ended => exact ⟨_, rfl, hkept⟩

theorem next_faithful (fuel : Nat) (h : Faithful s journal out) : ∃ journal',
    s.next d.recorded fuel (st, journal) =
      ((s.next d fuel st).1, (s.next d fuel st).2.1, (s.next d fuel st).2.2, journal') ∧
    Faithful (s.next d fuel st).2.1 journal' (out ++ (s.next d fuel st).1.items) :=
  next_keeps d Moved.faithful fuel st h

theorem next_ended {fuel : Nat} (h : s.next d fuel st = (.ended, s', st')) :
    s'.queue = [] ∧ s'.phase ≠ .running := by
  induction fuel generalizing s st with
  | zero => cases h
  | succ fuel ih =>
    obtain ⟨calls, hmoved, -⟩ := step_recorded d st [] s
    unfold next at h
    generalize s.step d st = result at hmoved h
    obtain ⟨turn, s₁, st₁⟩ := result
    cases hmoved with
    | ends hq hp =>
      cases h
      exact ⟨hq, hp⟩
    | hands | fails => cases h
    | closes | waits | takes => exact ih h

end Stream

variable {d : Device σ} {s s' : Stream} {st st' : σ} {items : List Item}

theorem Yields.faithful (hrun : Yields d s st items s' st') {journal : List Call} {out : List Item}
    (h : s.Faithful journal out) : ∃ journal',
      Yields d.recorded s (st, journal) items s' (st', journal') ∧
      s'.Faithful journal' (out ++ items) ∧ s'.queue = [] ∧ s'.phase ≠ .running := by
  induction hrun generalizing journal out with
  | ended fuel hnext =>
    obtain ⟨journal', hrecorded, hkept⟩ := Stream.next_faithful d fuel h
    rw [hnext] at hrecorded hkept
    exact ⟨journal', .ended fuel hrecorded, hkept, Stream.next_ended d hnext⟩
  | line fuel hnext _ ih =>
    obtain ⟨journal₁, hrecorded, hkept⟩ := Stream.next_faithful d fuel h
    rw [hnext] at hrecorded hkept
    obtain ⟨journal', hrest, hlast, hended⟩ := ih hkept
    refine ⟨journal', .line fuel hrecorded hrest, ?_, hended⟩
    simpa [Turn.items] using hlast
  | fault fuel hnext _ ih =>
    obtain ⟨journal₁, hrecorded, hkept⟩ := Stream.next_faithful d fuel h
    rw [hnext] at hrecorded hkept
    obtain ⟨journal', hrest, hlast, hended⟩ := ih hkept
    refine ⟨journal', .fault fuel hrecorded hrest, ?_, hended⟩
    simpa [Turn.items] using hlast

/-- **Capture is faithful.** A stream over any device that is asked for items until it ends hands out
the lines of exactly the bytes that its reads handed out, which are those of a transcript with these
bytes. Its failures are those of its calls, one each and in order, and each stands between the lines
that were complete before it and the others. -/
theorem yields_faithful {started duration pause : Nat}
    (h : Yields d (.start started duration pause) st items s' st') : ∃ journal,
      Yields d.recorded (.start started duration pause) (st, []) items s' (st', journal) ∧
      linesIn items = Assembler.linesOf (handedOut journal) ∧
      (∀ t p, t.read p = .ok (handedOut journal) →
        Transcript.read? p t = .ok (linesIn items)) ∧
      faultsIn items = failures journal ∧ InOrder journal items := by
  obtain ⟨journal, hrecorded, hkept, hqueue, hphase⟩ :=
    h.faithful (Stream.faithful_start started duration pause)
  rw [List.nil_append] at hkept
  have hlines := hkept.closed hphase
  rw [hqueue, List.append_nil] at hlines
  refine ⟨journal, hrecorded, hlines, fun t p hread => ?_, hkept.faults, hkept.order⟩
  rw [Transcript.read?, hread, hlines]
  rfl

/-- What a stream hands out until it ends, if it hands out less than `bound` items and takes at most
`fuel` turns for each. -/
def items? (d : Device σ) (fuel : Nat) : (bound : Nat) → Stream → σ → Option (List Item)
  | 0, _, _ => none
  | bound + 1, s, st =>
    match s.next d fuel st with
    | (.again, _, _) => none
    | (.ended, _, _) => some []
    | (.line text, s, st) => (items? d fuel bound s st).map (.line text :: ·)
    | (.fault f, s, st) => (items? d fuel bound s st).map (.fault f :: ·)

theorem exists_yields_of_items? {fuel bound : Nat} (h : items? d fuel bound s st = some items) :
    ∃ s' st', Yields d s st items s' st' := by
  induction bound generalizing s st items with
  | zero => cases h
  | succ bound ih =>
    rw [items?] at h
    split at h
    · cases h
    · rename_i s' st' hnext
      cases h
      exact ⟨s', st', .ended fuel hnext⟩
    · rename_i text s₁ st₁ hnext
      obtain ⟨rest, hrest, rfl⟩ := Option.map_eq_some_iff.1 h
      obtain ⟨s', st', hyields⟩ := ih hrest
      exact ⟨s', st', .line fuel hnext hyields⟩
    · rename_i f s₁ st₁ hnext
      obtain ⟨rest, hrest, rfl⟩ := Option.map_eq_some_iff.1 h
      obtain ⟨s', st', hyields⟩ := ih hrest
      exact ⟨s', st', .fault fuel hnext hyields⟩

/-- A line whose end comes only after a failed poll, and a last line that nothing ends. -/
def brokenLine : Script :=
  { events :=
      [⟨false, false, .bytes [0x61] none none none⟩,
       ⟨false, false, .failure ⟨.other, "unplugged"⟩⟩,
       ⟨false, false, .bytes [0x20, 0x0D, 0x0A, 0x62] none none none⟩] }

theorem yields_faithful_brokenLine : ∃ s' st',
    Yields Script.device (.start 0 1 0) brokenLine
      [.fault ⟨.other, "unplugged"⟩, .line "a", .line "b"] s' st' ∧
    ∃ journal, Assembler.linesOf (handedOut journal) = ["a", "b"] ∧
      failures journal = [⟨.other, "unplugged"⟩] := by
  have hitems : items? Script.device 10 10 (.start 0 1 0) brokenLine =
      some [.fault ⟨.other, "unplugged"⟩, .line "a", .line "b"] := by decide +kernel
  obtain ⟨s', st', hrun⟩ := exists_yields_of_items? hitems
  obtain ⟨journal, -, hlines, -, hfaults, -⟩ := yields_faithful hrun
  exact ⟨s', st', hrun, journal, hlines.symm, hfaults.symm⟩

end BenchLedger.Capture
