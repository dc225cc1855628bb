import BenchLedger.Capture.Window
import BenchLedger.Proofs.Capture.Faithful

/-!
# The echo of a capture

A capture writes to the console and reads nothing from it. `collect_echo` says so for the loop:
whatever console it is given, it does the same turns and brings the same, and what it brings decides
what it prints. `gather_eq` and `gatherAnnounced_eq` carry this to whole captures, with the calls on
the device in a journal beside the state.

The fuel of the loop is only a bound. Once a stream has run to its end, more of it changes nothing,
and the capture brings exactly what the stream handed out (`gather_of_yields`).
-/

namespace BenchLedger

/-! ## What a console shows -/

/-- Prints lines one after another. -/
def Console.printLines (c : Console) (lines : List String) : Console := lines.foldl printLine c

/-- Lines as they are shown, each with a line feed after it. -/
def shown : List String → String
  | [] => ""
  | text :: rest => (text ++ "\n") ++ shown rest

theorem Console.printLines_of_working (written : String) (lines : List String) :
    printLines ⟨true, written⟩ lines = ⟨true, written ++ shown lines⟩ := by
  induction lines generalizing written with
  | nil => simp [printLines, shown]
  | cons text rest ih =>
    have hfirst : printLines ⟨true, written⟩ (text :: rest) =
        printLines ⟨true, written ++ (text ++ "\n")⟩ rest := by
      rw [printLines, List.foldl_cons, printLine_of_working rfl]
      rfl
    rw [hfirst, ih, shown, String.append_assoc]

theorem Console.printLines_of_not_working (written : String) (lines : List String) :
    printLines ⟨false, written⟩ lines = ⟨false, written⟩ := by
  induction lines with
  | nil => rfl
  | cons text rest ih =>
    rw [printLines, List.foldl_cons, printLine_of_not_working rfl]
    exact ih

namespace Capture

variable {σ : Type}

/-! ## The loop -/

/-- The loop prints the lines that it takes in, and neither its turns nor anything else that it
brings depends on the console. -/
theorem collect_echo (d : Device σ) (fuel : Nat) (s : Stream) (st : σ) (p : Progress) :
    ∃ taken : List String, (collect d fuel s st p).1.lines = taken.reverse ++ p.lines ∧
      ∀ console, collect d fuel s st { p with console } =
        ({ (collect d fuel s st p).1 with console := console.printLines taken },
          (collect d fuel s st p).2) := by
  induction fuel generalizing s st p with
  | zero => exact ⟨[], rfl, fun console => rfl⟩
  | succ fuel ih =>
    simp only [collect]
    generalize s.step d st = result
    obtain ⟨turn, s₁, st₁⟩ := result
    cases turn with
    | ended => exact ⟨[], rfl, fun console => rfl⟩
    | again => exact ih s₁ st₁ p
    | fault f => exact ih s₁ st₁ { p with warnings := _ :: p.warnings }
    | line text =>
      obtain ⟨taken, hlines, hsame⟩ :=
        ih s₁ st₁ { p with lines := text :: p.lines, console := p.console.printLine text }
      refine ⟨text :: taken, ?_, fun console => hsame (console.printLine text)⟩
      rw [hlines]
      simp

theorem collect_recorded (d : Device σ) (fuel : Nat) (s : Stream) (st : σ) (journal : List Call)
    (p : Progress) : ∃ journal', collect d.recorded fuel s (st, journal) p =
      ((collect d fuel s st p).1, (collect d fuel s st p).2.1,
        ((collect d fuel s st p).2.2, journal')) := by
  induction fuel generalizing s st journal p with
  | zero => exact ⟨journal, rfl⟩
  | succ fuel ih =>
    obtain ⟨calls, -, hstep⟩ := Stream.step_recorded d st journal s
    simp only [collect, hstep]
    generalize s.step d st = result
    obtain ⟨turn, s₁, st₁⟩ := result
    cases turn with
    | ended => exact ⟨_, rfl⟩
    | again | line text | fault f => exact ih _ _ _ _

/-! ## Whole captures -/

/-- All that a capture prints: how it starts, its lines, and how it ended. -/
def announcement (duration : Nat) (o : Outcome) : List String :=
  [openingLine duration, echoRule] ++ o.lines ++
    if o.stopped then ["\n[Capture stopped by user]"] else [echoRule, closingLine o]

theorem gather_eq (d : Device σ) (fuel duration pause : Nat) (st : σ) :
    ∃ o warnings st' journal, ∀ console,
      gather d fuel duration pause console st =
        ⟨o, warnings, console.printLines o.lines, st'⟩ ∧
      gather d.recorded fuel duration pause console (st, []) =
        ⟨o, warnings, console.printLines o.lines, (st', journal)⟩ := by
  obtain ⟨taken, hlines, hsame⟩ := collect_echo d fuel (.start (d.now st).1 duration pause)
    (d.now st).2 { console := {} }
  obtain ⟨journal, hrecorded⟩ := collect_recorded d fuel (.start (d.now st).1 duration pause)
    (d.now st).2 [.timed (d.now st).1] { console := {} }
  obtain ⟨taken', hlines', hsame'⟩ := collect_echo d.recorded fuel
    (.start (d.now st).1 duration pause) ((d.now st).2, [.timed (d.now st).1]) { console := {} }
  rw [hrecorded] at hlines' hsame'
  have htaken : taken' = taken := by simpa using hlines'.symm.trans hlines
  subst htaken
  generalize collect d fuel (.start (d.now st).1 duration pause) (d.now st).2
    { console := {} } = result at hlines hsame hsame'
  obtain ⟨p, s, st₁⟩ := result
  have hreverse : p.lines.reverse = taken' := by simpa using congrArg List.reverse hlines
  refine ⟨⟨taken', (d.now st₁).1 - (d.now st).1, s.phase == .stopped⟩, p.warnings.reverse,
    (d.now st₁).2, journal ++ [.timed (d.now st₁).1], fun console => ⟨?_, ?_⟩⟩
  · have hcollect := hsame console
    simp only [gather]
    rw [hcollect]
    simp only [hreverse]
  · have hcollect := hsame' console
    have hstart : d.recorded.now (st, []) =
      ((d.now st).1, (d.now st).2, [.timed (d.now st).1]) := rfl
    have hend : d.recorded.now (st₁, journal) =
      ((d.now st₁).1, (d.now st₁).2, journal ++ [.timed (d.now st₁).1]) := rfl
    simp only [gather, hstart]
    rw [hcollect]
    simp only [hreverse, hend]

theorem gatherAnnounced_eq {d : Device σ} {fuel duration pause : Nat} {st : σ} {o : Outcome}
    {warnings : List String} {st' : σ}
    (h : ∀ console, gather d fuel duration pause console st =
      ⟨o, warnings, console.printLines o.lines, st'⟩) (console : Console) :
    gatherAnnounced d fuel duration pause console st =
      ⟨o, warnings, console.printLines (announcement duration o), st'⟩ := by
  simp only [gatherAnnounced, h, announcement]
  cases hstopped : o.stopped <;> simp [Console.printLines]

/-! ## Captures to the end -/

/-- How a read failure is reported. -/
def warningOf (f : Fault) : String := "[Read error: " ++ f.report ++ "]"

/-- A capture under way takes in an item. -/
def Progress.add (p : Progress) : Item → Progress
  | .line text => { p with lines := text :: p.lines, console := p.console.printLine text }
  | .fault f => { p with warnings := warningOf f :: p.warnings }

theorem foldl_add (items : List Item) (p : Progress) :
    items.foldl Progress.add p =
      { lines := (linesIn items).reverse ++ p.lines
        warnings := ((faultsIn items).map warningOf).reverse ++ p.warnings
        console := p.console.printLines (linesIn items) } := by
  induction items generalizing p with
  | nil => rfl
  | cons item rest ih =>
    rw [List.foldl_cons, ih, ← List.singleton_append, linesIn_append, faultsIn_append]
    cases item with
    | line text => simp [Progress.add, Console.printLines]
    | fault f => simp [Progress.add]

/-- What the loop does once a turn is done. -/
def collectAfter (d : Device σ) (more : Nat) (turn : Turn) (s : Stream) (st : σ) (p : Progress) :
    Progress × Stream × σ :=
  match turn with
  | .ended => (p, s, st)
  | turn => collect d more s st (turn.items.foldl Progress.add p)

theorem collect_succ (d : Device σ) (more : Nat) (s : Stream) (st : σ) (p : Progress) :
    collect d (more + 1) s st p =
      collectAfter d more (s.step d st).1 (s.step d st).2.1 (s.step d st).2.2 p := by
  rw [collect]
  generalize s.step d st = result
  obtain ⟨turn, s₁, st₁⟩ := result
  cases turn <;> rfl

variable {d : Device σ} {s s₁ s' : Stream} {st st₁ st' : σ} {items : List Item} {turn : Turn}

theorem collect_of_next {fuel : Nat} (h : s.next d fuel st = (turn, s₁, st₁))
    (hturn : turn ≠ .again) : ∃ turns, ∀ more p,
      collect d (turns + more) s st p = collectAfter d more turn s₁ st₁ p := by
  induction fuel generalizing s st with
  | zero =>
    cases h
    exact absurd rfl hturn
  | succ fuel ih =>
    have hfirst (more : Nat) (p : Progress) : collect d (1 + more) s st p =
        collectAfter d more (s.step d st).1 (s.step d st).2.1 (s.step d st).2.2 p := by
      rw [Nat.add_comm, collect_succ]
    rw [Stream.next] at h
    generalize s.step d st = result at h hfirst
    obtain ⟨first, s₂, st₂⟩ := result
    cases first with
    | again =>
      obtain ⟨turns, hturns⟩ := ih h
      refine ⟨1 + turns, fun more p => ?_⟩
      rw [Nat.add_assoc, hfirst]
      exact hturns more p
    | line text | fault f | ended =>
      cases h
      exact ⟨1, hfirst⟩

theorem collect_of_yields (h : Yields d s st items s' st') : ∃ turns, ∀ more p,
    collect d (turns + more) s st p = (items.foldl Progress.add p, s', st') := by
  induction h with
  | ended fuel hnext => exact collect_of_next hnext (by simp)
  | line fuel hnext _ ih | fault fuel hnext _ ih =>
    obtain ⟨turns, hturns⟩ := collect_of_next hnext (by simp)
    obtain ⟨rest, hrest⟩ := ih
    refine ⟨turns + rest, fun more p => ?_⟩
    rw [Nat.add_assoc, hturns]
    exact hrest more _

theorem gather_of_yields {duration pause : Nat}
    (h : Yields d (.start (d.now st).1 duration pause) (d.now st).2 items s' st') :
    ∃ turns, ∀ more console, gather d (turns + more) duration pause console st =
      ⟨⟨linesIn items, (d.now st').1 - (d.now st).1, s'.phase == .stopped⟩,
        (faultsIn items).map warningOf, console.printLines (linesIn items), (d.now st').2⟩ := by
  obtain ⟨turns, hturns⟩ := collect_of_yields h
  refine ⟨turns, fun more console => ?_⟩
  simp only [gather]
  rw [hturns, foldl_add]
  simp

end Capture

end BenchLedger
