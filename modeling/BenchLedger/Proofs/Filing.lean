import BenchLedger.Proofs.Disk.Neighbours

/-!
# Sequences of actions

A sequence of actions goes on after the first of them as far as that succeeded (`bind_of_ok`,
`bind_of_error`). It succeeds only if each does (`bind_eq_ok`), and fails where one of them does
(`bind_eq_error`). Making a path ready at most makes directories above it, whether or not it
succeeds (`makeReady_filed`). A path into an open directory is ready as it is (`makeReady_of_names`).
-/

namespace BenchLedger

open Disk

theorem bind_of_ok {ε σ α β : Type} {x : EStateM ε σ α} {s s' : σ} {a : α} (h : x s = .ok a s')
    (f : α → EStateM ε σ β) : (x >>= f) s = f a s' := by
  show EStateM.bind x f s = f a s'
  rw [EStateM.bind, h]

theorem bind_of_error {ε σ α β : Type} {x : EStateM ε σ α} {s s' : σ} {e : ε}
    (h : x s = .error e s') (f : α → EStateM ε σ β) : (x >>= f) s = .error e s' := by
  show EStateM.bind x f s = .error e s'
  rw [EStateM.bind, h]

theorem bind_eq_ok {ε σ α β : Type} {x : EStateM ε σ α} {f : α → EStateM ε σ β} {s s' : σ} {b : β}
    (h : (x >>= f) s = .ok b s') : ∃ a s₁, x s = .ok a s₁ ∧ f a s₁ = .ok b s' := by
  cases hx : x s with
  | ok a s₁ =>
    rw [bind_of_ok hx] at h
    exact ⟨a, s₁, rfl, h⟩
  | error e s₁ =>
    rw [bind_of_error hx] at h
    cases h

theorem bind_eq_error {ε σ α β : Type} {x : EStateM ε σ α} {f : α → EStateM ε σ β} {s s' : σ}
    {e : ε} (h : (x >>= f) s = .error e s') :
    x s = .error e s' ∨ ∃ a s₁, x s = .ok a s₁ ∧ f a s₁ = .error e s' := by
  cases hx : x s with
  | ok a s₁ =>
    rw [bind_of_ok hx] at h
    exact .inr ⟨a, s₁, rfl, h⟩
  | error e₁ s₁ =>
    rw [bind_of_error hx] at h
    cases h
    exact .inl rfl

theorem run'_eq_some {ε σ α : Type} {x : EStateM ε σ α} {s : σ} {a : α} (h : x.run' s = some a) :
    ∃ s', x s = .ok a s' := by
  unfold EStateM.run' EStateM.run at h
  cases hx : x s with
  | ok b s' =>
    simp only [hx, Option.some.injEq] at h
    exact ⟨s', by rw [h]⟩
  | error e s' => simp [hx] at h

theorem run'_eq_none {ε σ α : Type} {x : EStateM ε σ α} {s : σ} (h : (x.run' s).isNone) :
    ∃ e s', x s = .error e s' := by
  unfold EStateM.run' EStateM.run at h
  cases hx : x s with
  | ok b s' => simp [hx] at h
  | error e s' => exact ⟨e, s', rfl⟩

namespace Filing

variable {t t' : Tree}

theorem change_eq_ok {operation : Tree → Except Disk.Error Tree}
    (h : change operation t = .ok () t') : operation t = .ok t' := by
  unfold change at h
  cases hop : operation t with
  | ok t₁ =>
    rw [hop] at h
    cases h
    rfl
  | error e =>
    rw [hop] at h
    cases h

theorem change_eq_error {operation : Tree → Except Disk.Error Tree} {e : FilingError}
    (h : change operation t = .error e t') :
    t' = t ∧ ∃ cause, operation t = .error cause ∧ e = .notWritten cause := by
  unfold change at h
  cases hop : operation t with
  | ok t₁ =>
    rw [hop] at h
    cases h
  | error cause =>
    rw [hop] at h
    cases h
    exact ⟨rfl, cause, rfl, rfl⟩

/-- The tree that an action leaves, whether or not it succeeded. -/
def treeAfter {α : Type} : EStateM.Result FilingError Tree α → Tree
  | .ok _ t | .error _ t => t

theorem makeReady_filed (p : Path) (t : Tree) : t.Filed (treeAfter (makeReady p t)) p.above [] := by
  have hnothing : t.Filed t p.above [] := .nothing t _
  unfold makeReady
  split_ifs with hempty hdirectory
  · exact hnothing
  · exact hnothing
  · cases hparent : p.parent? with
    | none => exact hnothing
    | some parent =>
      dsimp only
      split_ifs with hready
      · exact hnothing
      · have hmade := Tree.makeDirectories_filed t parent.withParents
        have habove : parent.withParents = p.above := by simp [Path.above, hparent]
        rw [habove] at hmade ⊢
        generalize t.makeDirectories p.above = result at hmade
        obtain ⟨cause | made, t₁⟩ := result
        · exact hmade
        · exact hmade

theorem makeReady_eq_ok {p : Path} (h : makeReady p t = .ok () t') : t.Filed t' p.above [] := by
  have hfiled := makeReady_filed p t
  rw [h] at hfiled
  exact hfiled

theorem makeReady_eq_error {p : Path} {e : FilingError} (h : makeReady p t = .error e t') :
    t.Filed t' p.above [] := by
  have hfiled := makeReady_filed p t
  rw [h] at hfiled
  exact hfiled

theorem makeReady_of_names {p : Path} {here : Location} {name : Name} (h : t.Names p here name)
    (hfile : t.isDirectory p = false) : makeReady p t = .ok () t := by
  obtain ⟨q, hparent, hopens⟩ := h.opens
  have hempty := Tree.isEmpty_of_admit? h.path
  have hstands : (q.isEmpty || t.exists? q) = true := by
    rcases hopens.leads with hleads | ⟨hqempty, -⟩
    · simp [Tree.exists?, hleads]
    · simp [hqempty]
  simp [makeReady, hempty, hfile, hparent, hstands]

end Filing

end BenchLedger
