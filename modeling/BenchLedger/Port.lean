import BenchLedger.Capture.Script

/-!
# Ports

The ports that a live capture may use: one is preferred, and others are tried in order when it
cannot be opened.
-/

namespace BenchLedger

open Capture

/-- What opening a port gives: the device behind it, or why it could not be opened. -/
abbrev Ports := String → Except String Script

/-- Why no port is open. -/
inductive PortError
  | notOpened (port reason : String)
  | noneOpens (tried : List String)

namespace PortError

/-- The words for a failure. -/
def message : PortError → String
  | notOpened port reason => "Could not open serial port " ++ port ++ ": " ++ reason
  | noneOpens tried => "No serial port available. Tried: " ++ ", ".intercalate tried

/-- The words for a failure and then for what caused it. -/
def chain (e : PortError) : List String :=
  match e with
  | notOpened _ reason => [e.message, reason]
  | noneOpens _ => [e.message]

end PortError

namespace Ports

def connect (ports : Ports) (port : String) : Except PortError Script :=
  match ports port with
  | .ok script => .ok script
  | .error reason => .error (.notOpened port reason)

section search

variable {m : Type → Type} [Monad m] (opening : String → m (Except String Script))

/-- Opens a port only to see whether that is possible. -/
def probe (port : String) : m Bool := do
  let answer ← opening port
  return answer.isOk

/-- Probes some ports in turn, up to the first one that opens. -/
def search (candidates : List String) : m (Except PortError String) := do
  match ← candidates.findM? (probe opening) with
  | some port => return .ok port
  | none => return .error (.noneOpens candidates)

end search

/-- The first of some ports that can be opened. -/
def find (ports : Ports) (candidates : List String) : Except PortError String :=
  Id.run (search (fun port => pure (ports port)) candidates)

end Ports

end BenchLedger
