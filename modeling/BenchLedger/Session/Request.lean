import BenchLedger.Disk.Path
import BenchLedger.Text.Blank

/-!
# Requests

Everything that is asked of one run: which ports at which speed, how long, where the results go and
under which label, or which transcript to replay. A request with a meaningless part is rejected, for
the first reason in a fixed order.
-/

namespace BenchLedger

open Disk

/-- Where a capture comes from and where its files go. -/
structure Settings where
  port : String := "/dev/cu.usbmodem11401"
  otherPorts : List String :=
    ["/dev/cu.usbmodem211401", "/dev/cu.usbmodem11301", "/dev/ttyUSB0"]
  baud : UInt32 := 115200
  /-- How long to capture, in nanoseconds. -/
  duration : Nat := 60 * 1000000000
  /-- How long to wait after a poll that brought nothing, in nanoseconds. -/
  pause : Nat := 10 * 1000000
  docs : Path := ⟨["docs".toList]⟩

namespace Settings

/-- The ports to try, each once. -/
def portsToTry (s : Settings) : List String := (s.port :: s.otherPorts).eraseDups

def ledger (s : Settings) : Path := s.docs.join ⟨["PERFORMANCE_TRACKING.md".toList]⟩

def captures (s : Settings) : Path := s.docs.join ⟨["performance_captures".toList]⟩

end Settings

/-- What is asked of a run. -/
structure Request where
  settings : Settings := {}
  label : String := "capture"
  save : Bool := true
  record : Option Path := none
  replay : Option Path := none

/-- Why a request is rejected. -/
inductive Rejection
  | noDuration
  | blankLabel
  | noPort
  | noSpeed
  deriving DecidableEq

def Rejection.message : Rejection → String
  | .noDuration => "Duration must be greater than 0"
  | .blankLabel => "Label cannot be empty"
  | .noPort => "Serial port cannot be empty"
  | .noSpeed => "Baud rate must be greater than 0"

/-- The first reason to reject a request. -/
def Request.rejection? (r : Request) : Option Rejection :=
  if r.settings.duration = 0 then some .noDuration
  else if Text.trim r.label.toList = [] then some .blankLabel
  else if r.replay.isNone ∧ r.settings.port = "" then some .noPort
  else if r.settings.baud = 0 then some .noSpeed
  else none

end BenchLedger
