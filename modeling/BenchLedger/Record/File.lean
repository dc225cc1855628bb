import BenchLedger.Filing
import BenchLedger.Record.Document

/-!
# Record files

A record is written in place of whatever the file held. The text is brought out in blocks; a device
without room refuses the first block of a long text while the text is still being made, and a short
text only at the end.
-/

namespace BenchLedger.Record

open Disk Text

/-- How many bytes are brought out at once. -/
def blockSize : Nat := 8192

def content (r : Record) : List UInt8 := Utf8.encode r.document.print

def keep (r : Record) (p : Path) : Filing Unit := do
  Filing.makeReady p
  fun t =>
    match t.replace p r.content with
    | .ok t => .ok () t
    | .error e =>
      let isLate := e == .noSpace && decide (blockSize < r.content.length)
      .error (if isLate then .notEncoded e else .notWritten e) t

end BenchLedger.Record
