import BenchLedger.Proofs.Session.Conclude

/-!
# Replays

A saved capture can be replayed: its transcript brings back its lines, and since everything that a
run measures depends only on its lines, the replay measures and files the same, but for the date of
the ledger row.
-/

namespace BenchLedger.Run

open Capture Disk

theorem conclude_measures {o o' : Outcome} {r r' : Request} {clock clock' : Clock}
    {w w' w₁ w₁' : World} {result result' : Result} (hlines : o'.lines = o.lines)
    (h : conclude o r clock w = .ok result w') (h' : conclude o' r' clock' w₁ = .ok result' w₁') :
    result'.metrics = result.metrics ∧ result'.summary = result.summary ∧
      result'.exit = result.exit := by
  obtain ⟨-, hmetrics, hsummary, hexit, -⟩ := conclude_eq_ok h
  obtain ⟨-, hmetrics', hsummary', hexit', -⟩ := conclude_eq_ok h'
  refine ⟨?_, ?_, ?_⟩
  · rw [hmetrics', hmetrics, hlines]
  · rw [hsummary', hsummary, hlines]
  · rw [hexit', hexit, hlines]

/-- **A replay of a saved capture reproduces it.** Captures and transcripts bring emitted lines.
Emitted lines that are saved are read back unchanged. So is the transcript of a live run, unless its
record was written over it, and a later run in replay mode that succeeds on what the transcript then
brings measures the same and adds a row that differs from the first one only in the date. -/
theorem conclude_replay :
    (∀ (σ : Type) (d : Device σ) (started duration pause : Nat) (st : σ) items s' st',
      Yields d (.start started duration pause) st items s' st' → Emitted (linesIn items)) ∧
    (∀ (σ : Type) (d : Device σ) (fuel duration pause : Nat) (console : Console) (st : σ),
      Emitted (gather d fuel duration pause console st).outcome.lines) ∧
    (∀ p t lines, Transcript.read? p t = .ok lines → Emitted lines) ∧
    (∀ lines, Emitted lines → ∀ directory label started t p t',
      Transcript.keep directory lines label started t = .ok p t' →
        Transcript.read? p t' = .ok lines) ∧
    ∀ o r clock w result w', Emitted o.lines → r.save = true → r.replay = none →
      conclude o r clock w = .ok result w' →
      (∀ q p, r.record = some q → result.transcript = some p →
        w'.tree.locate q ≠ w'.tree.locate p) →
      AddsRow r w.tree w'.tree (Ledger.row result.summary r.label clock.filed) ∧
      ∃ p, result.transcript = some p ∧ Transcript.read? p w'.tree = .ok o.lines ∧
        ∀ later o' r' clock' w₁ result' w₁', later.read p = w'.tree.read p →
          Transcript.read? p later = .ok o'.lines → r'.replay.isSome →
          conclude o' r' clock' w₁ = .ok result' w₁' →
          result'.metrics = result.metrics ∧ result'.summary = result.summary ∧
          result'.exit = result.exit ∧
          (r'.save = true → r'.label = r.label →
            AddsRow r' w₁.tree w₁'.tree (Ledger.row result'.summary r'.label clock'.filed) ∧
            (Ledger.cells result'.summary r'.label clock'.filed).tail =
              (Ledger.cells result.summary r.label clock.filed).tail) := by
  refine ⟨fun _ _ _ _ _ _ _ _ _ hrun => hrun.emitted, fun _ => gather_emitted,
    fun _ _ _ => read?_emitted, fun _ hlines _ _ _ _ _ _ => Transcript.read?_keep hlines, ?_⟩
  intro o r clock w result w' hlines hsave hlive h hrecord
  obtain ⟨p, htranscript, hread⟩ := conclude_transcript hlines hsave hlive h hrecord
  refine ⟨conclude_addsRow hsave h, p, htranscript, hread, ?_⟩
  intro later o' r' clock' w₁ result' w₁' hlater hread' _ h'
  have hsame : o'.lines = o.lines := by
    rw [Transcript.read?, hlater, ← Transcript.read?, hread, Except.ok.injEq] at hread'
    exact hread'.symm
  obtain ⟨hmetrics, hsummary, hexit⟩ := conclude_measures hsame h h'
  refine ⟨hmetrics, hsummary, hexit, fun hsave' hlabel => ⟨conclude_addsRow hsave' h', ?_⟩⟩
  -- The time of a row stands only in its first cell.
  rw [hsummary, hlabel]
  rfl

/-- Midnight of a day in October 2026, at all looks at a clock that is five and a half hours ahead. -/
def midnight (day : Nat) : Clock :=
  { started := ⟨⟨2026, 10, day⟩, 0, 0⟩
    filed := ⟨⟨2026, 10, day⟩, 0, 0⟩
    offset := 19800
    reading := 0 }

/-- Where a capture that starts at midnight of 16 October 2026 is saved by default. -/
def savedAt : Path :=
  ⟨["docs".toList, "performance_captures".toList, "20261016_000000_capture.txt".toList]⟩

theorem conclude_replay_oneLine : ∃ result w' result' w₁',
    conclude ⟨["a"], 0, false⟩ {} (midnight 16) ⟨⟨[], []⟩, {}⟩ = .ok result w' ∧
    result.transcript = some savedAt ∧ Transcript.read? savedAt w'.tree = .ok ["a"] ∧
    conclude ⟨["a"], 0, false⟩ { replay := some savedAt } (midnight 17) ⟨⟨[], []⟩, {}⟩ =
      .ok result' w₁' ∧
    (Ledger.cells result'.summary "capture" (midnight 17).filed).tail =
      (Ledger.cells result.summary "capture" (midnight 16).filed).tail := by
  have hlines : Emitted ["a"] := ⟨[.push [0x61], .flush], by decide +kernel⟩
  have hsaved : ((conclude ⟨["a"], 0, false⟩ {} (midnight 16)).run' ⟨⟨[], []⟩, {}⟩).bind
      Result.transcript = some savedAt := by decide +kernel
  have hreplayed : ((conclude ⟨["a"], 0, false⟩ { replay := some savedAt } (midnight 17)).run'
      ⟨⟨[], []⟩, {}⟩).isSome := by decide +kernel
  obtain ⟨result, hresult, htranscript⟩ := Option.bind_eq_some_iff.1 hsaved
  obtain ⟨w', h⟩ := run'_eq_some hresult
  obtain ⟨result', hresult'⟩ := Option.isSome_iff_exists.1 hreplayed
  obtain ⟨w₁', h'⟩ := run'_eq_some hresult'
  obtain ⟨-, p, hp, hread, hreplay⟩ := conclude_replay.2.2.2.2 ⟨["a"], 0, false⟩ {} _ _ _ _
    hlines rfl rfl h (fun _ _ hrecord => by cases hrecord)
  rw [htranscript, Option.some.injEq] at hp
  subst hp
  obtain ⟨-, -, -, hrows⟩ := hreplay w'.tree ⟨["a"], 0, false⟩ _ _ _ _ _ rfl hread rfl h'
  exact ⟨result, w', result', w₁', h, htranscript, hread, h', (hrows rfl rfl).2⟩

end BenchLedger.Run
