import BenchLedger.Proofs.Capture.Echo

/-!
# Whole runs of a stream

What single calls and single turns say about whole runs: a property of the device that every call
keeps is kept by a run (`Device.Keeps.yields`), and a run ends if every turn but the last one lowers
a count (`exists_yields_of_lowers`).
-/

namespace BenchLedger.Capture

variable {σ : Type}

/-! ## What every call keeps -/

/-- Every call on a device keeps a property of its state. -/
structure Device.Keeps (d : Device σ) (P : σ → Prop) : Prop where
  available : ∀ st, P st → P (d.available st).2
  read : ∀ size st, P st → P (d.read size st).2
  cancelled : ∀ st, P st → P (d.cancelled st).2
  now : ∀ st, P st → P (d.now st).2
  sleep : ∀ nanos st, P st → P (d.sleep nanos st)

namespace Device.Keeps

variable {d : Device σ} {P : σ → Prop} {st : σ}

theorem poll (h : d.Keeps P) (hst : P st) : P (Stream.poll d st).2 := by
  have havailable := h.available st hst
  rw [Stream.poll]
  generalize d.available st = answer at havailable
  obtain ⟨f | _ | n, st₁⟩ := answer
  · exact havailable
  · exact havailable
  · have hread := h.read (min (n + 1) bufferSize) st₁ havailable
    cases hbrought : d.read (min (n + 1) bufferSize) st₁ with
    | mk brought st₂ =>
      rw [hbrought] at hread
      cases brought <;> simpa [hbrought] using hread

theorem overdue (h : d.Keeps P) (s : Stream) (hst : P st) : P (s.overdue d st).2 := by
  unfold Stream.overdue
  cases s.deadline with
  | none => exact hst
  | some closing => exact h.now st hst

theorem step (h : d.Keeps P) (s : Stream) (hst : P st) : P (s.step d st).2.2 := by
  unfold Stream.step
  cases s.queue with
  | cons text rest => exact hst
  | nil =>
    by_cases hp : s.phase = .running
    · have hcancelled := h.cancelled st hst
      simp only [hp, ne_eq, not_true_eq_false, if_false]
      generalize d.cancelled st = asked at hcancelled
      obtain ⟨_ | _, st₁⟩ := asked
      · have hoverdue := h.overdue s hcancelled
        dsimp only at hoverdue ⊢
        generalize s.overdue d st₁ = late at hoverdue
        obtain ⟨_ | _, st₂⟩ := late
        · have hpoll := h.poll hoverdue
          dsimp only at hpoll ⊢
          generalize Stream.poll d st₂ = polled at hpoll
          obtain ⟨f | _ | ⟨b, bs⟩, st₃⟩ := polled
          · exact h.sleep _ _ hpoll
          · exact h.sleep _ _ hpoll
          · exact hpoll
        · exact hoverdue
      · exact hcancelled
    · simpa [hp] using hst

theorem next (h : d.Keeps P) (fuel : Nat) (s : Stream) (hst : P st) :
    P (s.next d fuel st).2.2 := by
  induction fuel generalizing s st with
  | zero => exact hst
  | succ fuel ih =>
    have hstep := h.step s hst
    unfold Stream.next
    generalize s.step d st = result at hstep
    obtain ⟨turn, s₁, st₁⟩ := result
    cases turn with
    | again => exact ih s₁ hstep
    | line | fault | ended => exact hstep

theorem yields (h : d.Keeps P) {s s' : Stream} {st' : σ} {items : List Item}
    (hrun : Yields d s st items s' st') (hst : P st) : P st' := by
  induction hrun with
  | @ended s s' st st' fuel hnext =>
    have hlast := h.next fuel s hst
    rwa [hnext] at hlast
  | @line s _ _ st _ _ _ _ fuel hnext _ ih | @fault s _ _ st _ _ _ _ fuel hnext _ ih =>
    have hfirst := h.next fuel s hst
    rw [hnext] at hfirst
    exact ih hfirst

end Device.Keeps

/-! ## Runs that come to an end -/

section ending

variable {d : Device σ} {s s₁ s' : Stream} {st st₁ st' : σ} {turn : Turn} {items : List Item}

theorem Yields.after (hrun : Yields d s₁ st₁ items s' st') (hstep : s.step d st = (turn, s₁, st₁))
    (hturn : turn ≠ .ended) : Yields d s st (turn.items ++ items) s' st' := by
  cases turn with
  | ended => exact absurd rfl hturn
  | line text => exact .line 1 (by rw [Stream.next, hstep]) hrun
  | fault f => exact .fault 1 (by rw [Stream.next, hstep]) hrun
  | again =>
    have hnext (fuel : Nat) : s.next d (fuel + 1) st = s₁.next d fuel st₁ := by
      rw [Stream.next, hstep]
    cases hrun with
    | ended fuel hlast => exact .ended (fuel + 1) ((hnext fuel).trans hlast)
    | line fuel hfirst hrest => exact .line (fuel + 1) ((hnext fuel).trans hfirst) hrest
    | fault fuel hfirst hrest => exact .fault (fuel + 1) ((hnext fuel).trans hfirst) hrest

/-- If every turn ends the run or lowers a count, the run ends, and it takes no more turns than the
count allows. -/
theorem exists_yields_of_lowers {left : Stream → σ → Nat} {I : Stream → σ → Prop}
    (hturn : ∀ s st, I s st → I (s.step d st).2.1 (s.step d st).2.2 ∧
      ((s.step d st).1 ≠ .ended → left (s.step d st).2.1 (s.step d st).2.2 < left s st))
    {fuel : Nat} (h : I s st) (hfuel : left s st < fuel) : ∃ items s' st',
      Yields d s st items s' st' ∧ I s' st' ∧
      ∀ more p, collect d (fuel + more) s st p = (items.foldl Progress.add p, s', st') := by
  induction fuel generalizing s st with
  | zero => exact absurd hfuel (Nat.not_lt_zero _)
  | succ fuel ih =>
    obtain ⟨hkept, hlower⟩ := hturn s st h
    have hcollect (more : Nat) (p : Progress) : collect d (fuel + 1 + more) s st p =
        collectAfter d (fuel + more) (s.step d st).1 (s.step d st).2.1 (s.step d st).2.2 p := by
      rw [Nat.add_right_comm, collect_succ]
    generalize hstep : s.step d st = result at hkept hlower hcollect
    obtain ⟨turn, s₁, st₁⟩ := result
    by_cases hended : turn = .ended
    · subst hended
      refine ⟨[], s₁, st₁, .ended 1 ?_, hkept, hcollect⟩
      rw [Stream.next, hstep]
    · have hless := hlower hended
      obtain ⟨items, s', st', hrun, hlast, hrest⟩ := ih hkept (by omega)
      refine ⟨turn.items ++ items, s', st', hrun.after hstep hended, hlast, fun more p => ?_⟩
      rw [hcollect, List.foldl_append, ← hrest]
      cases turn with
      | ended => exact absurd rfl hended
      | again | line | fault => rfl

end ending

end BenchLedger.Capture
