import BenchLedger.Capture.Assembler
import BenchLedger.Proofs.Text.Trim
import BenchLedger.Proofs.Text.Utf8

/-!
# Line assembly depends only on the bytes

The assembler of `Capture.Assembler` is compared with a description of lines that knows no chunks:
`completeLines` splits all bytes at line feeds, drops what follows the last one, and decodes, trims
and filters the pieces. `run_lines_eq` shows that any sequence of chunks and flushes hands out these
lines, where a flush counts as one line feed, and that it holds the bytes after the last line feed.

The loop of the assembler is related to the splitting once, in `drain_eq`. All else follows from
`completeLines_append`: what stands before the last line feed of some bytes no longer matters for
the lines that later bytes complete.
-/

namespace BenchLedger.Capture

open Text

/-! ## Lines without chunks -/

/-- The lines that some bytes complete: each piece that a line feed ends is decoded and trimmed, and
dropped if nothing is left. -/
def completeLines (bytes : List UInt8) : List String :=
  (((bytes.splitOn lineFeed).dropLast.map fun piece => trim (Utf8.decode piece)).filter
    (· ≠ [])).map String.ofList

/-- The bytes after the last line feed. -/
def unended (bytes : List UInt8) : List UInt8 := bytes.rtakeWhile (· ≠ lineFeed)

theorem filterMap_lineOf? (pieces : List (List UInt8)) :
    pieces.filterMap lineOf? =
      ((pieces.map fun piece => trim (Utf8.decode piece)).filter (· ≠ [])).map String.ofList := by
  induction pieces with
  | nil => rfl
  | cons piece pieces ih =>
    rw [List.filterMap_cons, lineOf?]
    cases h : trim (Utf8.decode piece) with
    | nil => simp [h, ih]
    | cons c cs => simp [h, ih]

theorem completeLines_eq (bytes : List UInt8) :
    completeLines bytes = (bytes.splitOn lineFeed).dropLast.filterMap lineOf? :=
  (filterMap_lineOf? _).symm

theorem lineFeed_notMem_unended (bytes : List UInt8) : lineFeed ∉ unended bytes := by
  intro h
  simpa using List.mem_rtakeWhile_imp h

theorem unended_of_notMem {bytes : List UInt8} (h : lineFeed ∉ bytes) : unended bytes = bytes := by
  rw [unended, List.rtakeWhile_eq_self_iff]
  intro b hb
  simpa using ne_of_mem_of_not_mem hb h

theorem unended_append_cons (front rest : List UInt8) :
    unended (front ++ lineFeed :: rest) = unended rest := by
  have hreverse : (front ++ lineFeed :: rest).reverse = rest.reverse ++ lineFeed :: front.reverse := by
    simp
  rw [unended, unended, List.rtakeWhile, List.rtakeWhile, hreverse, List.takeWhile_append]
  split
  · rename_i hall
    rw [List.takeWhile_cons_of_neg (by simp), List.append_nil]
    exact congrArg _ ((List.takeWhile_prefix _).eq_of_length hall).symm
  · rfl

theorem completeLines_of_notMem {bytes : List UInt8} (h : lineFeed ∉ bytes) :
    completeLines bytes = [] := by
  rw [completeLines_eq, List.splitOn_eq_singleton h]
  rfl

theorem completeLines_append_cons (front rest : List UInt8) :
    completeLines (front ++ lineFeed :: rest) =
      (front.splitOn lineFeed).filterMap lineOf? ++ completeLines rest := by
  rw [completeLines_eq, completeLines_eq, List.splitOn_append_cons_self,
    List.dropLast_append_of_ne_nil (List.splitOn_ne_nil _ _), List.filterMap_append]

theorem completeLines_piece {raw : List UInt8} (h : lineFeed ∉ raw) (rest : List UInt8) :
    completeLines (raw ++ lineFeed :: rest) = (lineOf? raw).toList ++ completeLines rest := by
  rw [completeLines_append_cons, List.splitOn_eq_singleton h, List.filterMap_cons]
  cases lineOf? raw <;> rfl

theorem exists_eq_append_unended {bytes : List UInt8} (h : lineFeed ∈ bytes) :
    ∃ front, bytes = front ++ lineFeed :: unended bytes := by
  obtain ⟨rest, front, hsplit, hrest⟩ := List.eq_append_cons_of_mem (List.mem_reverse.2 h)
  have hbytes : bytes = front.reverse ++ lineFeed :: rest.reverse := by
    rw [← List.reverse_reverse bytes, hsplit]
    simp
  refine ⟨front.reverse, ?_⟩
  rw [hbytes, unended_append_cons, unended_of_notMem (by simpa using hrest)]

theorem completeLines_append (xs ys : List UInt8) :
    completeLines (xs ++ ys) = completeLines xs ++ completeLines (unended xs ++ ys) := by
  by_cases h : lineFeed ∈ xs
  · obtain ⟨front, hxs⟩ := exists_eq_append_unended h
    have hnone := completeLines_of_notMem (lineFeed_notMem_unended xs)
    generalize unended xs = rest at hxs hnone
    subst hxs
    rw [List.append_assoc, List.cons_append, completeLines_append_cons, completeLines_append_cons,
      hnone, List.append_nil]
  · rw [completeLines_of_notMem h, unended_of_notMem h, List.nil_append]

theorem unended_append (xs ys : List UInt8) : unended (xs ++ ys) = unended (unended xs ++ ys) := by
  by_cases h : lineFeed ∈ xs
  · obtain ⟨front, hxs⟩ := exists_eq_append_unended h
    have hsplit : xs ++ ys = front ++ lineFeed :: (unended xs ++ ys) := by
      rw [← List.cons_append, ← List.append_assoc, ← hxs]
    rw [hsplit, unended_append_cons]
  · rw [unended_of_notMem h]

/-! ## Pieces where bytes meet -/

/-- The bytes before the first line feed. -/
def started (bytes : List UInt8) : List UInt8 := bytes.takeWhile (· ≠ lineFeed)

theorem started_of_notMem {bytes : List UInt8} (h : lineFeed ∉ bytes) : started bytes = bytes := by
  rw [started, List.takeWhile_eq_self_iff]
  intro b hb
  simpa using ne_of_mem_of_not_mem hb h

theorem started_append_cons {first : List UInt8} (h : lineFeed ∉ first) (later : List UInt8) :
    started (first ++ lineFeed :: later) = first := by
  have hall : ∀ b ∈ first, decide (b ≠ lineFeed) = true := fun b hb => by
    simpa using ne_of_mem_of_not_mem hb h
  rw [started, List.takeWhile_append_of_pos hall, List.takeWhile_cons_of_neg (by simp),
    List.append_nil]

theorem splitOn_notMem_append {xs : List UInt8} (h : lineFeed ∉ xs) (ys : List UInt8) :
    (xs ++ ys).splitOn lineFeed = (xs ++ started ys) :: (ys.splitOn lineFeed).tail := by
  by_cases hys : lineFeed ∈ ys
  · obtain ⟨first, later, rfl, hfirst⟩ := List.eq_append_cons_of_mem hys
    have hjoined : lineFeed ∉ xs ++ first := by simp [h, hfirst]
    rw [← List.append_assoc, List.splitOn_append_cons_self, List.splitOn_append_cons_self,
      List.splitOn_eq_singleton hjoined, List.splitOn_eq_singleton hfirst,
      started_append_cons hfirst]
    rfl
  · have hjoined : lineFeed ∉ xs ++ ys := by simp [h, hys]
    rw [List.splitOn_eq_singleton hjoined, List.splitOn_eq_singleton hys, started_of_notMem hys]
    rfl

theorem splitOn_append (xs ys : List UInt8) :
    (xs ++ ys).splitOn lineFeed = (xs.splitOn lineFeed).dropLast ++
      (unended xs ++ started ys) :: (ys.splitOn lineFeed).tail := by
  by_cases h : lineFeed ∈ xs
  · obtain ⟨front, hxs⟩ := exists_eq_append_unended h
    have hlast := lineFeed_notMem_unended xs
    generalize unended xs = last at hxs hlast ⊢
    subst hxs
    rw [List.append_assoc, List.cons_append, List.splitOn_append_cons_self,
      List.splitOn_append_cons_self, List.splitOn_eq_singleton hlast, List.dropLast_concat,
      splitOn_notMem_append hlast]
  · rw [splitOn_notMem_append h, List.splitOn_eq_singleton h, unended_of_notMem h]
    rfl

theorem splitOn_eq_concat_unended (bytes : List UInt8) :
    bytes.splitOn lineFeed = (bytes.splitOn lineFeed).dropLast ++ [unended bytes] := by
  have h := splitOn_append bytes []
  simpa [started] using h

/-! ## The loop -/

theorem lineOf?_append_lineFeed (raw : List UInt8) : lineOf? (raw ++ [lineFeed]) = lineOf? raw := by
  have hdecode : Utf8.decode (raw ++ [lineFeed]) = Utf8.decode raw ++ ['\n'] :=
    Utf8.decode_append_ascii (by decide) raw []
  rw [lineOf?, lineOf?, hdecode, trim_append_blank _ (by decide)]

theorem drain_eq (bytes : List UInt8) : drain bytes = (completeLines bytes, unended bytes) := by
  by_cases h : lineFeed ∈ bytes
  · obtain ⟨raw, rest, hsplit, hraw⟩ := List.eq_append_cons_of_mem h
    have hshorter : rest.length < bytes.length := by
      simp only [hsplit, List.length_append, List.length_cons]
      omega
    rw [hsplit, drain_append_cons hraw, drain_eq rest, lineOf?_append_lineFeed,
      completeLines_piece hraw, unended_append_cons]
  · rw [drain_of_notMem h, completeLines_of_notMem h, unended_of_notMem h]
termination_by bytes.length

namespace Assembler

theorem push_eq (a : Assembler) (chunk : List UInt8) :
    a.push chunk = (completeLines (a.held ++ chunk), ⟨unended (a.held ++ chunk)⟩) := by
  rw [push, drain_eq]

/-! ## Sequences of steps -/

inductive Step
  | push (chunk : List UInt8)
  | flush

/-- The bytes that a step stands for: a flush ends a line like a line feed. -/
def Step.bytes : Step → List UInt8
  | .push chunk => chunk
  | .flush => [lineFeed]

/-- The bytes that a sequence of steps stands for. -/
def streamOf (steps : List Step) : List UInt8 := steps.flatMap Step.bytes

/-- One step: the lines that it hands out, and the assembler after it. -/
def apply (a : Assembler) : Step → List String × Assembler
  | .push chunk => a.push chunk
  | .flush => (a.flush.1.toList, a.flush.2)

/-- A sequence of steps: the lines that each hands out, and the assembler after all. -/
def run (a : Assembler) : List Step → List (List String) × Assembler
  | [] => ([], a)
  | step :: steps =>
    let rest := (a.apply step).2.run steps
    ((a.apply step).1 :: rest.1, rest.2)

theorem run_append (a : Assembler) (xs ys : List Step) :
    a.run (xs ++ ys) = ((a.run xs).1 ++ ((a.run xs).2.run ys).1, ((a.run xs).2.run ys).2) := by
  induction xs generalizing a with
  | nil => rfl
  | cons x xs ih => simp [run, ih]

/-- Between two steps an assembler holds no line feed. A step then hands out the lines that its
bytes complete and holds what follows the last line feed again. -/
theorem apply_eq {a : Assembler} (h : lineFeed ∉ a.held) (step : Step) :
    a.apply step =
      (completeLines (a.held ++ step.bytes), ⟨unended (a.held ++ step.bytes)⟩) := by
  cases step with
  | push chunk => exact push_eq a chunk
  | flush =>
    have hnil : lineFeed ∉ ([] : List UInt8) := List.not_mem_nil
    simp only [apply, flush, Step.bytes]
    rw [completeLines_piece h, completeLines_of_notMem hnil, unended_append_cons,
      unended_of_notMem hnil, List.append_nil]

theorem run_eq (steps : List Step) :
    (run {} steps).1.flatten = completeLines (streamOf steps) ∧
      (run {} steps).2.held = unended (streamOf steps) := by
  induction steps using List.reverseRecOn with
  | nil => exact ⟨rfl, rfl⟩
  | append_singleton steps step ih =>
    have hheld : lineFeed ∉ (run {} steps).2.held := ih.2 ▸ lineFeed_notMem_unended _
    have hstream : streamOf (steps ++ [step]) = streamOf steps ++ step.bytes := by
      simp [streamOf]
    rw [run_append, hstream, completeLines_append, unended_append, ← ih.1, ← ih.2]
    simp [run, apply_eq hheld]

/-- **Line assembly depends only on the bytes.** The lines of any steps are those of their bytes,
however these are cut into chunks; each further step hands out the lines that it completes, and what
is held are the bytes after the last line feed. -/
theorem run_lines_eq (steps : List Step) :
    (run {} steps).1.flatten = completeLines (streamOf steps) ∧
    (run {} steps).2.held = unended (streamOf steps) ∧
    ∀ step, ∃ handedOut,
      (run {} (steps ++ [step])).1 = (run {} steps).1 ++ [handedOut] ∧
      completeLines (streamOf (steps ++ [step])) = completeLines (streamOf steps) ++ handedOut := by
  refine ⟨(run_eq steps).1, (run_eq steps).2, fun step => ?_⟩
  refine ⟨((run {} steps).2.apply step).1, by rw [run_append]; rfl, ?_⟩
  rw [← (run_eq (steps ++ [step])).1, ← (run_eq steps).1, run_append]
  simp [run]

end Assembler

end BenchLedger.Capture
