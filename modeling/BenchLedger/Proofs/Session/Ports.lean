import BenchLedger.Proofs.Summary.Vote
import BenchLedger.Session.Run

/-!
# The search for a port

The ports to try are the preferred one and then the others, each where it first stands. A search
opens them in this order, one after another, up to the first one that opens (`search_attempts`); what
an opening does to the outside and what it depends on does not matter. So no port is opened twice,
and if none opens, the failure names them all: `portsToTry_search`.
-/

namespace BenchLedger

open Capture Statistics

/-! ## The ports to try -/

namespace Settings

theorem head?_portsToTry (s : Settings) : s.portsToTry.head? = some s.port := by
  rw [portsToTry, List.eraseDups_cons]
  rfl

theorem mem_portsToTry {s : Settings} {port : String} :
    port ∈ s.portsToTry ↔ port ∈ s.port :: s.otherPorts := List.mem_eraseDups

end Settings

/-! ## Searches -/

namespace Ports

/-- A port that was opened to try it, and whether it opened. -/
abbrev Attempt := String × Bool

/-- How a search among candidates goes: the attempts it makes, in their order, and the port that it
finds, if any. -/
inductive Searched (candidates : List String) : List Attempt → Option String → Prop
  | found {refused rest : List String} {port : String} (h : candidates = refused ++ port :: rest) :
      Searched candidates (refused.map (·, false) ++ [(port, true)]) (some port)
  | exhausted : Searched candidates (candidates.map (·, false)) none

section searched

variable {candidates : List String} {attempts : List Attempt} {found : Option String}

theorem Searched.refused (h : Searched candidates attempts found) (port : String) :
    Searched (port :: candidates) ((port, false) :: attempts) found := by
  cases h with
  | @found refused rest later h =>
    have hsplit : port :: candidates = (port :: refused) ++ later :: rest :=
      congrArg (port :: ·) h
    exact .found hsplit
  | exhausted => exact .exhausted

theorem Searched.prefix (h : Searched candidates attempts found) :
    attempts.map Prod.fst <+: candidates := by
  cases h with
  | @found refused rest port h => exact ⟨rest, by simp [h, Function.comp_def]⟩
  | exhausted => simp [Function.comp_def]

end searched

/-- What a search answers. -/
def answer (candidates : List String) : Option String → Except PortError String
  | some port => .ok port
  | none => .error (.noneOpens candidates)

section search

variable {σ : Type} (opening : String → StateM σ (Except String Script))

/-- The same opening, with a list of the attempts. -/
def noted (port : String) : StateM (σ × List Attempt) (Except String Script) := fun x =>
  let (answer, st) := (opening port).run x.1
  (answer, st, x.2 ++ [(port, answer.isOk)])

theorem run_findM?_cons (accepts : String → StateM σ Bool) (port : String)
    (candidates : List String) (st : σ) : ((port :: candidates).findM? accepts).run st =
      if ((accepts port).run st).1 then (some port, ((accepts port).run st).2)
      else (candidates.findM? accepts).run ((accepts port).run st).2 := by
  rw [List.findM?, StateT.run_bind]
  change (match ((accepts port).run st).1 with
    | true => pure (some port)
    | false => candidates.findM? accepts : StateM σ (Option String)).run _ = _
  cases ((accepts port).run st).1 <;> rfl

theorem run_search (candidates : List String) (st : σ) : (search opening candidates).run st =
    (answer candidates ((candidates.findM? (probe opening)).run st).1,
      ((candidates.findM? (probe opening)).run st).2) := by
  rw [search, StateT.run_bind]
  generalize (candidates.findM? (probe opening)).run st = result
  obtain ⟨found, st'⟩ := result
  cases found <;> rfl

/-- Candidates are probed in turn up to the first one that opens, and to note this changes nothing. -/
theorem findM?_attempts (candidates : List String) (st : σ) (log : List Attempt) :
    ∃ attempts found st', Searched candidates attempts found ∧
      (candidates.findM? (probe opening)).run st = (found, st') ∧
      (candidates.findM? (probe (noted opening))).run (st, log) = (found, st', log ++ attempts) := by
  induction candidates generalizing st log with
  | nil => exact ⟨[], none, st, .exhausted, rfl, by rw [List.append_nil]; rfl⟩
  | cons first candidates ih =>
    have hprobe : (probe opening first).run st =
      (((opening first).run st).1.isOk, ((opening first).run st).2) := rfl
    have hnoted : (probe (noted opening) first).run (st, log) =
      (((opening first).run st).1.isOk, ((opening first).run st).2,
        log ++ [(first, ((opening first).run st).1.isOk)]) := rfl
    rw [run_findM?_cons, run_findM?_cons, hprobe, hnoted]
    cases hopens : ((opening first).run st).1.isOk with
    | true => exact ⟨_, _, _, .found (List.nil_append (first :: candidates)).symm, rfl, rfl⟩
    | false =>
      obtain ⟨attempts, found, st', hsearched, hfound, hlogged⟩ :=
        ih ((opening first).run st).2 (log ++ [(first, false)])
      rw [List.append_assoc] at hlogged
      exact ⟨_, _, st', hsearched.refused first, hfound, hlogged⟩

theorem search_attempts (candidates : List String) (st : σ) :
    ∃ attempts found st', Searched candidates attempts found ∧
      (search opening candidates).run st = (answer candidates found, st') ∧
      (search (noted opening) candidates).run (st, []) =
        (answer candidates found, st', attempts) := by
  obtain ⟨attempts, found, st', hsearched, hfound, hlogged⟩ :=
    findM?_attempts opening candidates st []
  refine ⟨attempts, found, st', hsearched, ?_, ?_⟩
  · rw [run_search, hfound]
  · rw [run_search, hlogged]
    rfl

end search

/-! ## Ports that do not change -/

section find

variable {ports : Ports} {candidates : List String}

theorem find_eq (ports : Ports) (candidates : List String) : ports.find candidates =
    answer candidates (candidates.find? fun port => (ports port).isOk) := by
  have hprobe : (probe (m := Id) fun port => pure (ports port)) =
    fun port => pure (ports port).isOk := rfl
  have hfind := List.findM?_pure (m := Id) (fun port => (ports port).isOk) candidates
  rw [find, search, hprobe]
  simp only [hfind, pure_bind]
  cases candidates.find? fun port => (ports port).isOk <;> rfl

theorem find_eq_ok_iff {port : String} : ports.find candidates = .ok port ↔
    ∃ refused rest, candidates = refused ++ port :: rest ∧
      (∀ p ∈ refused, (ports p).isOk = false) ∧ (ports port).isOk = true := by
  have hsome : ports.find candidates = .ok port ↔
      (candidates.find? fun port => (ports port).isOk) = some port := by
    rw [find_eq]
    cases candidates.find? fun port => (ports port).isOk <;> simp [answer]
  rw [hsome, List.find?_eq_some_iff_append]
  constructor
  · rintro ⟨hopens, refused, rest, hsplit, hrefused⟩
    exact ⟨refused, rest, hsplit, by simpa using hrefused, hopens⟩
  · rintro ⟨refused, rest, hsplit, hrefused, hopens⟩
    exact ⟨hopens, refused, rest, hsplit, by simpa using hrefused⟩

theorem find_eq_error_iff {e : PortError} : ports.find candidates = .error e ↔
    (∀ port ∈ candidates, (ports port).isOk = false) ∧ e = .noneOpens candidates := by
  have hnone : ports.find candidates = .error e ↔
      (candidates.find? fun port => (ports port).isOk) = none ∧ e = .noneOpens candidates := by
    rw [find_eq]
    cases candidates.find? fun port => (ports port).isOk <;> simp [answer, eq_comm]
  rw [hnone, List.find?_eq_none]
  simp only [Bool.not_eq_true]

end find

end Ports

theorem Run.capture_of_find_error {ports : Ports} {s : Settings} {e : PortError}
    (h : ports.find s.portsToTry = .error e) (w : World) :
    capture ports s w = .error (.noPort e) w := by
  unfold capture
  rw [h]
  rfl

/-- **Every port is tried at most once, in the order in which the ports are configured.** The ports
to try start with the preferred one, are those that are configured, each once, and stand in the
order in which these first occur. Whatever opening a port does, a search tries them in this order up
to the first one that opens. It fails exactly if none opens, with a message that names them all in
this order, and then a capture fails with it and changes nothing. -/
theorem portsToTry_search (s : Settings) :
    s.portsToTry.head? = some s.port ∧ s.portsToTry.Nodup ∧
    (∀ port, port ∈ s.portsToTry ↔ port ∈ s.port :: s.otherPorts) ∧
    (s.portsToTry.Pairwise fun port later =>
      (s.port :: s.otherPorts).idxOf port < (s.port :: s.otherPorts).idxOf later) ∧
    (∀ (σ : Type) (opening : String → StateM σ (Except String Script)) (st : σ),
      ∃ attempts found st', Ports.Searched s.portsToTry attempts found ∧
        (attempts.map Prod.fst).Nodup ∧
        (Ports.search opening s.portsToTry).run st = (Ports.answer s.portsToTry found, st') ∧
        (Ports.search (Ports.noted opening) s.portsToTry).run (st, []) =
          (Ports.answer s.portsToTry found, st', attempts)) ∧
    (∀ ports : Ports,
      (∀ port, ports.find s.portsToTry = .ok port ↔
        ∃ refused rest, s.portsToTry = refused ++ port :: rest ∧
          (∀ p ∈ refused, (ports p).isOk = false) ∧ (ports port).isOk = true) ∧
      (∀ e, ports.find s.portsToTry = .error e ↔
        (∀ port ∈ s.port :: s.otherPorts, (ports port).isOk = false) ∧
          e = .noneOpens s.portsToTry) ∧
      ∀ e w, ports.find s.portsToTry = .error e →
        Run.capture ports s w = .error (.noPort e) w) ∧
    (PortError.noneOpens s.portsToTry).message =
      "No serial port available. Tried: " ++ ", ".intercalate s.portsToTry := by
  refine ⟨s.head?_portsToTry, nodup_eraseDups _, fun port => Settings.mem_portsToTry,
    eraseDups_pairwise _, fun σ opening st => ?_, fun ports => ⟨fun port => Ports.find_eq_ok_iff,
    fun e => ?_, fun e w h => Run.capture_of_find_error h w⟩, rfl⟩
  · obtain ⟨attempts, found, st', hsearched, hsearch, hlogged⟩ :=
      Ports.search_attempts opening s.portsToTry st
    exact ⟨attempts, found, st', hsearched,
      (nodup_eraseDups _).sublist hsearched.prefix.sublist, hsearch, hlogged⟩
  · rw [Ports.find_eq_error_iff]
    simp only [Settings.mem_portsToTry]

/-- Ports that are configured more than once, the preferred one among the others. -/
def repeatedPorts : Settings := { port := "b", otherPorts := ["a", "b", "a", "c", "b"] }

theorem portsToTry_search_repeated :
    Run.capture (fun _ => .error "busy") repeatedPorts ⟨⟨[], []⟩, {}⟩ =
      .error (.noPort (.noneOpens ["b", "a", "c"])) ⟨⟨[], []⟩, {}⟩ ∧
    (PortError.noneOpens ["b", "a", "c"]).message =
      "No serial port available. Tried: b, a, c" ∧
    Ports.find (fun port => if port = "c" then .ok { events := [] } else .error "busy")
      repeatedPorts.portsToTry = .ok "c" := by
  obtain ⟨-, -, -, -, -, hports, hmessage⟩ := portsToTry_search repeatedPorts
  have htried : repeatedPorts.portsToTry = ["b", "a", "c"] := by decide
  obtain ⟨-, hrefused, hcapture⟩ := hports fun _ => .error "busy"
  obtain ⟨hfound, -⟩ := hports fun port => if port = "c" then .ok { events := [] } else .error "busy"
  rw [htried] at hrefused hcapture hfound hmessage ⊢
  refine ⟨hcapture _ _ ((hrefused _).2 ⟨fun _ _ => rfl, rfl⟩), hmessage.trans (by decide), ?_⟩
  exact (hfound "c").2 ⟨["b", "a"], [], rfl, by decide, rfl⟩

end BenchLedger
