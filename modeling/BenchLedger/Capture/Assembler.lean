import BenchLedger.Text.Blank
import BenchLedger.Text.Utf8

/-!
# Line assembly

Bytes arrive in chunks that may end anywhere, even inside a character. The assembler keeps the bytes
after the last line feed and hands out every line that a chunk completes: decoded, trimmed, and left
out if nothing remains. `drain_append_cons` says what one round of its loop does, and
`drain_of_notMem` when the loop ends.
-/

namespace BenchLedger.Capture

open Text

def lineFeed : UInt8 := 10

/-- The line that some bytes stand for, if it is not blank. -/
def lineOf? (raw : List UInt8) : Option String :=
  match trim (Utf8.decode raw) with
  | [] => none
  | cs => some (String.ofList cs)

/-- Takes lines off the front of some bytes for as long as there is a line feed, and returns what is
left. A line is decoded together with its line feed, which trimming removes. -/
def drain (bytes : List UInt8) : List String × List UInt8 :=
  match _h : bytes.findIdx? (· == lineFeed) with
  | none => ([], bytes)
  | some pos =>
    let (lines, rest) := drain (bytes.drop (pos + 1))
    ((lineOf? (bytes.take (pos + 1))).toList ++ lines, rest)
termination_by bytes.length
decreasing_by
  have := (List.findIdx?_eq_some_iff_findIdx_eq.1 _h).1
  simp only [List.length_drop]
  omega

theorem findIdx?_lineFeed_of_notMem {bytes : List UInt8} (h : lineFeed ∉ bytes) :
    bytes.findIdx? (· == lineFeed) = none := by
  rw [List.findIdx?_eq_none_iff]
  intro b hb
  simpa using ne_of_mem_of_not_mem hb h

theorem drain_of_notMem {bytes : List UInt8} (h : lineFeed ∉ bytes) :
    drain bytes = ([], bytes) := by
  rw [drain]
  split
  · rfl
  · rename_i pos hpos
    rw [findIdx?_lineFeed_of_notMem h] at hpos
    cases hpos

theorem drain_append_cons {raw : List UInt8} (h : lineFeed ∉ raw) (rest : List UInt8) :
    drain (raw ++ lineFeed :: rest) =
      ((lineOf? (raw ++ [lineFeed])).toList ++ (drain rest).1, (drain rest).2) := by
  have hfirst : (raw ++ lineFeed :: rest).findIdx? (· == lineFeed) = some raw.length := by
    rw [List.findIdx?_append, findIdx?_lineFeed_of_notMem h]
    simp [List.findIdx?_cons]
  rw [drain]
  split
  · simp_all
  · rename_i pos hpos
    rw [hfirst] at hpos
    cases hpos
    simp [List.take_append, List.take_of_length_le]

structure Assembler where
  held : List UInt8 := []

namespace Assembler

def push (a : Assembler) (chunk : List UInt8) : List String × Assembler :=
  let (lines, held) := drain (a.held ++ chunk)
  (lines, { held })

/-- Hands out what is left as a line of its own. -/
def flush (a : Assembler) : Option String × Assembler := (lineOf? a.held, {})

/-- All lines of bytes that are complete: those that end, and the rest as the last line. -/
def linesOf (bytes : List UInt8) : List String :=
  let (lines, a) := push {} bytes
  lines ++ a.flush.1.toList

end Assembler

end BenchLedger.Capture
