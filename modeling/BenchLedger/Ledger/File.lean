import BenchLedger.Filing
import BenchLedger.Ledger.Row

/-!
# Ledger files

The ledger only ever grows: it is created with its header if nothing stands at its path, and each
capture adds a row at its end.
-/

namespace BenchLedger.Ledger

open Disk Text

/-- Creates a ledger where none exists, and says whether it did. -/
def create (p : Path) : Filing Bool := do
  Filing.makeReady p
  fun t =>
    match t.createNew p (Utf8.encode header.toList) with
    | .ok t => .ok true t
    | .error .exists => .ok false t
    | .error e => .error (.notWritten e) t

/-- Adds the row of a capture, after creating the ledger if it is missing. -/
def add (p : Path) (s : Summary) (label : String) (time : Moment) : Filing Unit := do
  let _ ← create p
  Filing.change (·.append p (Utf8.encode (row s label time)))

end BenchLedger.Ledger
