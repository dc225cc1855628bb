import BenchLedger.Capture.Assembler
import BenchLedger.Filing
import BenchLedger.Transcript.Name

/-!
# Transcript files

The captured lines of a run, one a line, in a file of their own. A name that is taken is never used
again: numbers are tried after the stem until one is free. A transcript is read back by the rules of
a capture.
-/

namespace BenchLedger.Transcript

open Capture Disk Text

/-- The bytes of a transcript: the lines with a line feed between each two of them. -/
def content (lines : List String) : List UInt8 :=
  Utf8.encode (['\n'].intercalate (lines.map String.toList))

/-- The paths for a transcript in the order in which they are tried, the first being `base`. -/
def candidates (base : Path) (name : Name) (attempts : Nat) : List Path :=
  (List.range attempts).map fun n =>
    if n = 0 then base
    else base.withName (Path.stem name ++ '_' :: Decimal.digits n ++ ".txt".toList)

/-- Creates a file at the first path at which nothing stands. -/
def createFirst (bytes : List UInt8) : List Path → Filing Path
  | [] => throw (.notWritten .exists)
  | p :: rest => fun t =>
    match t.createNew p bytes with
    | .ok t => .ok p t
    | .error .exists => createFirst bytes rest t
    | .error e => .error (.notWritten e) t

/-- Saves the lines of a capture in a directory and returns the path of the file. One path more is
tried than there are entries, so that one of them is free. -/
def keep (directory : Path) (lines : List String) (label : String) (started : Moment) :
    Filing Path := do
  let name := name label started
  let base := directory.join ⟨[name]⟩
  Filing.makeReady base
  let t ← get
  createFirst (content lines) (candidates base name (t.entries.length + 1))

def unreadable (cause : Disk.Error) : String := "Read failed: " ++ cause.message

/-- The lines of a transcript. -/
def read? (p : Path) (t : Tree) : Except Disk.Error (List String) :=
  (t.read p).map Assembler.linesOf

end BenchLedger.Transcript
