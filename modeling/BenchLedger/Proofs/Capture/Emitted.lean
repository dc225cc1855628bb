import BenchLedger.Capture.Window
import BenchLedger.Proofs.Capture.Faithful

/-!
# Emitted lines

The lists of lines that an assembler can hand out are exactly those of texts that are not empty, not
surrounded by blank characters and without line feed: `emitted_iff`. Every capture and every
transcript brings such a list, so what is shown of emitted lines holds wherever lines come from.
-/

namespace BenchLedger.Capture

open Text

/-! ## What a line can be -/

/-- Some sequence of steps makes an assembler hand out these lines. -/
def Emitted (lines : List String) : Prop :=
  ∃ steps, (Assembler.run {} steps).1.flatten = lines

/-- A text that a line can be. -/
structure IsLine (text : String) : Prop where
  ne_nil : text.toList ≠ []
  trimmed : trim text.toList = text.toList
  single : '\n' ∉ text.toList

/-- Each line with a line feed after it, encoded. -/
def terminated (lines : List String) : List UInt8 :=
  lines.flatMap fun text => Utf8.encode text.toList ++ [lineFeed]

theorem isLine_of_lineOf? {raw : List UInt8} {text : String} (hraw : lineFeed ∉ raw)
    (h : lineOf? raw = some text) : IsLine text := by
  rw [lineOf?] at h
  cases htrim : trim (Utf8.decode raw) with
  | nil => simp [htrim] at h
  | cons c cs =>
    simp only [htrim, Option.some.injEq] at h
    subst h
    refine ⟨by simp, ?_, ?_⟩
    · rw [String.toList_ofList, ← htrim, trim_trim]
    · rw [String.toList_ofList, ← htrim]
      intro hmem
      exact hraw (Utf8.mem_decode_ascii (by decide) (by decide) (mem_of_mem_trim hmem))

theorem lineOf?_encode {text : String} (h : IsLine text) :
    lineOf? (Utf8.encode text.toList) = some text := by
  rw [lineOf?, Utf8.decode_encode, h.trimmed]
  cases htext : text.toList with
  | nil => exact absurd htext h.ne_nil
  | cons c cs =>
    show some (String.ofList (c :: cs)) = some text
    rw [← htext, String.ofList_toList]

theorem lineFeed_notMem_encode {text : String} (h : IsLine text) :
    lineFeed ∉ Utf8.encode text.toList :=
  Utf8.byte_notMem_encode (by decide : '\n'.toNat < 0x80) h.single

theorem isLine_of_mem_completeLines {bytes : List UInt8} {text : String}
    (h : text ∈ completeLines bytes) : IsLine text := by
  by_cases hmem : lineFeed ∈ bytes
  · obtain ⟨raw, rest, hsplit, hraw⟩ := List.eq_append_cons_of_mem hmem
    have hshorter : rest.length < bytes.length := by
      simp only [hsplit, List.length_append, List.length_cons]
      omega
    rw [hsplit, completeLines_piece hraw, List.mem_append, Option.mem_toList] at h
    rcases h with hfirst | hlater
    · exact isLine_of_lineOf? hraw hfirst
    · exact isLine_of_mem_completeLines hlater
  · rw [completeLines_of_notMem hmem] at h
    cases h
termination_by bytes.length

theorem completeLines_terminated {lines : List String} (h : ∀ text ∈ lines, IsLine text) :
    completeLines (terminated lines) = lines := by
  induction lines with
  | nil => exact completeLines_of_notMem List.not_mem_nil
  | cons text lines ih =>
    have htext := h text List.mem_cons_self
    have hrest := ih fun other hother => h other (List.mem_cons_of_mem text hother)
    rw [terminated, List.flatMap_cons, List.append_assoc, List.singleton_append,
      completeLines_piece (lineFeed_notMem_encode htext), lineOf?_encode htext]
    exact congrArg (text :: ·) hrest

theorem emitted_completeLines (bytes : List UInt8) : Emitted (completeLines bytes) := by
  refine ⟨[.push bytes], ?_⟩
  rw [(Assembler.run_eq _).1]
  simp [Assembler.streamOf, Assembler.Step.bytes]

/-- The invariant of emitted lines, which is all that can be said of them. -/
theorem emitted_iff {lines : List String} : Emitted lines ↔ ∀ text ∈ lines, IsLine text := by
  constructor
  · rintro ⟨steps, rfl⟩ text htext
    rw [(Assembler.run_eq steps).1] at htext
    exact isLine_of_mem_completeLines htext
  · intro h
    rw [← completeLines_terminated h]
    exact emitted_completeLines _

theorem linesOf_eq_completeLines (bytes : List UInt8) :
    Assembler.linesOf bytes = completeLines (bytes ++ [lineFeed]) := by
  rw [linesOf_eq, completeLines_append, completeLines_piece (lineFeed_notMem_unended bytes),
    completeLines_of_notMem List.not_mem_nil, List.append_nil]

theorem emitted_linesOf (bytes : List UInt8) : Emitted (Assembler.linesOf bytes) := by
  rw [linesOf_eq_completeLines]
  exact emitted_completeLines _

/-! ## No lines -/

theorem lineOf?_eq_none_iff {raw : List UInt8} :
    lineOf? raw = none ↔ ∀ c ∈ Utf8.decode raw, isBlank c = true := by
  rw [← trim_eq_nil_iff, lineOf?]
  cases trim (Utf8.decode raw) with
  | nil => simp
  | cons c cs => simp

/-- Bytes hold no line exactly if they are blank as a whole. A line feed, which is never part of
another character, is blank itself. -/
theorem linesOf_eq_nil_iff (bytes : List UInt8) :
    Assembler.linesOf bytes = [] ↔ ∀ c ∈ Utf8.decode bytes, isBlank c = true := by
  rw [linesOf_eq_completeLines]
  by_cases hmem : lineFeed ∈ bytes
  · obtain ⟨raw, rest, hsplit, hraw⟩ := List.eq_append_cons_of_mem hmem
    have hshorter : rest.length < bytes.length := by
      simp only [hsplit, List.length_append, List.length_cons]
      omega
    have hlater := linesOf_eq_nil_iff rest
    rw [linesOf_eq_completeLines] at hlater
    have hdecode : Utf8.decode (raw ++ lineFeed :: rest) =
        Utf8.decode raw ++ '\n' :: Utf8.decode rest :=
      Utf8.decode_append_ascii (by decide) raw rest
    have hblank : isBlank '\n' = true := by decide
    rw [hsplit, List.append_assoc, List.cons_append, completeLines_piece hraw,
      List.append_eq_nil_iff, hlater, Option.toList_eq_nil_iff, lineOf?_eq_none_iff, hdecode,
      List.forall_mem_append, List.forall_mem_cons]
    simp only [hblank, true_and]
  · rw [completeLines_piece hmem, completeLines_of_notMem List.not_mem_nil, List.append_nil,
      Option.toList_eq_nil_iff, lineOf?_eq_none_iff]
termination_by bytes.length

theorem Emitted.of_append {xs ys : List String} (h : Emitted (xs ++ ys)) : Emitted xs := by
  rw [emitted_iff] at h ⊢
  exact fun text htext => h text (List.mem_append_left ys htext)

/-! ## Where lines come from -/

variable {σ : Type}

theorem Stream.Faithful.emitted {s : Stream} {journal : List Call} {out : List Item}
    (h : s.Faithful journal out) : Emitted (linesIn out) := by
  have hall : Emitted (linesIn out ++ s.queue) := by
    by_cases hp : s.phase = .running
    · rw [h.running hp]
      exact emitted_completeLines _
    · rw [h.closed hp]
      exact emitted_linesOf _
  exact hall.of_append

theorem Yields.emitted {d : Device σ} {started duration pause : Nat} {s' : Stream} {st st' : σ}
    {items : List Item} (h : Yields d (.start started duration pause) st items s' st') :
    Emitted (linesIn items) := by
  obtain ⟨_, -, hkept, -⟩ := h.faithful (Stream.faithful_start started duration pause)
  exact hkept.emitted

theorem collect_faithful (d : Device σ) (fuel : Nat) {s : Stream} (st : σ) {p : Progress}
    {journal : List Call} {out : List Item} (h : s.Faithful journal out)
    (hlines : linesIn out = p.lines.reverse) : ∃ journal' out',
      (collect d fuel s st p).2.1.Faithful journal' out' ∧
      linesIn out' = (collect d fuel s st p).1.lines.reverse := by
  induction fuel generalizing s st p journal out with
  | zero => exact ⟨journal, out, h, hlines⟩
  | succ fuel ih =>
    obtain ⟨calls, hmoved, -⟩ := Stream.step_recorded d st [] s
    have hkept := Stream.Moved.faithful hmoved h
    rw [collect]
    generalize s.step d st = result at hkept
    obtain ⟨turn, s₁, st₁⟩ := result
    cases turn with
    | ended => exact ⟨_, _, hkept, by simpa [Turn.items] using hlines⟩
    | again => exact ih _ hkept (by simpa [Turn.items] using hlines)
    | line text => exact ih _ hkept (by simp [Turn.items, hlines])
    | fault f => exact ih _ hkept (by simpa [Turn.items] using hlines)

theorem gather_emitted (d : Device σ) (fuel duration pause : Nat) (console : Console) (st : σ) :
    Emitted (gather d fuel duration pause console st).outcome.lines := by
  have hnone : linesIn [] = ({ console } : Progress).lines.reverse := rfl
  obtain ⟨_, _, hkept, hlines⟩ := collect_faithful d fuel (d.now st).2
    (Stream.faithful_start (d.now st).1 duration pause) hnone
  have hemitted := hkept.emitted
  rw [hlines] at hemitted
  exact hemitted

theorem read?_emitted {p : Disk.Path} {t : Disk.Tree} {lines : List String}
    (h : Transcript.read? p t = .ok lines) : Emitted lines := by
  unfold Transcript.read? at h
  cases hread : t.read p with
  | error cause => simp [hread, Except.map] at h
  | ok bytes =>
    rw [hread] at h
    cases h
    exact emitted_linesOf bytes

end BenchLedger.Capture
