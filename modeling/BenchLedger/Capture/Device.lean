/-!
# Devices

What a capture sees of the world outside: a channel that delivers bytes, a request to stop, and a
clock. All five are functions of a state that they also change, so nothing is assumed about what a
device does between two looks at it.
-/

namespace BenchLedger.Capture

/-- Why a call on a channel failed, as far as a capture tells failures apart. -/
inductive FaultKind
  | timedOut
  | interrupted
  | other
  deriving DecidableEq

/-- A failed call on a channel. -/
structure Fault where
  kind : FaultKind
  message : String
  deriving DecidableEq

namespace Fault

/-- Whether a read that fails like this only means that nothing was read. -/
def isPassing (f : Fault) : Bool := f.kind == .timedOut || f.kind == .interrupted

def report (f : Fault) : String := "Read failed: " ++ f.message

end Fault

/-- The outside of a capture, with states of type `σ`. -/
structure Device (σ : Type) where
  available : σ → Except Fault Nat × σ
  /-- Reads at most as many bytes as the buffer holds. -/
  read : (size : Nat) → σ → Except Fault (List UInt8) × σ
  cancelled : σ → Bool × σ
  /-- The time, in nanoseconds. -/
  now : σ → Nat × σ
  /-- Waits for some nanoseconds. -/
  sleep : (nanos : Nat) → σ → σ

end BenchLedger.Capture
