import BenchLedger.Text.LowerCase
import BenchLedger.Text.Search

/-!
# Link status

The two markers that may stand on any line of a capture, and the status they amount to. The failure
marker is searched without regard to case and outweighs the other.
-/

namespace BenchLedger

open Text

/-- Which markers a capture contains. -/
structure Markers where
  connected : Bool := false
  failure : Bool := false
  deriving DecidableEq

namespace Markers

def reportsConnection (line : String) : Bool := occursIn "WiFi connected".toList line.toList

/-- Whether a line reports a failed assertion, in upper or lower case. -/
def reportsFailure (line : String) : Bool :=
  occursIn "assert failed".toList (lowerCase line.toList)

def ofLines (lines : List String) : Markers :=
  ⟨lines.any reportsConnection, lines.any reportsFailure⟩

theorem ofLines_append (xs ys : List String) :
    ofLines (xs ++ ys) =
      ⟨(ofLines xs).connected || (ofLines ys).connected,
        (ofLines xs).failure || (ofLines ys).failure⟩ := by
  simp [ofLines]

end Markers

/-- How the device fared. -/
inductive Status
  | error
  | connected
  | unknown
  deriving DecidableEq

namespace Status

/-- The status that a set of markers amounts to. -/
def ofMarkers (m : Markers) : Status :=
  if m.failure then error else if m.connected then connected else unknown

def label : Status → String
  | error => "ERROR"
  | connected => "Connected"
  | unknown => "Unknown"

end Status

end BenchLedger
