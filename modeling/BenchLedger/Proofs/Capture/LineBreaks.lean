import BenchLedger.Proofs.Capture.Assembly
import BenchLedger.Proofs.Text.Replacement

/-!
# Malformed bytes keep the line breaks

Decoding commutes with splitting at line feeds (`splitOn_decode`): a line feed ends whatever
character is open, and no other byte is decoded to one. Where two byte sequences meet, splitting
joins the last piece of the first and the first piece of the second, and no others. So bytes without
a line feed, malformed or not, show in the line that they stand on only (`splitOn_append_append`).
-/

namespace BenchLedger.Capture

open Text

/-! ## Pieces of bytes -/

theorem splitOn_append_append {part : List UInt8} (h : lineFeed ∉ part) (front rest : List UInt8) :
    (front ++ part ++ rest).splitOn lineFeed = (front.splitOn lineFeed).dropLast ++
      (unended front ++ part ++ started rest) :: (rest.splitOn lineFeed).tail := by
  have hinside : lineFeed ∉ unended front ++ part := by simp [lineFeed_notMem_unended, h]
  rw [splitOn_append (front ++ part), splitOn_append front, unended_append,
    unended_of_notMem hinside, List.splitOn_eq_singleton h]
  simp

/-! ## Pieces of text -/

theorem splitOn_decode_of_notMem {bytes : List UInt8} (h : lineFeed ∉ bytes) :
    (Utf8.decode bytes).splitOn '\n' = [Utf8.decode bytes] := by
  refine List.splitOn_eq_singleton fun hbreak => h ?_
  exact Utf8.mem_decode_ascii (by decide) (by decide) hbreak

theorem splitOn_decode (bytes : List UInt8) :
    (Utf8.decode bytes).splitOn '\n' = (bytes.splitOn lineFeed).map Utf8.decode := by
  -- The first line feed is decoded by itself, whatever the bytes before it leave open.
  by_cases h : lineFeed ∈ bytes
  · obtain ⟨first, rest, hsplit, hfirst⟩ := List.eq_append_cons_of_mem h
    have hshorter : rest.length < bytes.length := by
      simp only [hsplit, List.length_append, List.length_cons]
      omega
    have hdecode : Utf8.decode (first ++ lineFeed :: rest) =
        Utf8.decode first ++ '\n' :: Utf8.decode rest :=
      Utf8.decode_append_ascii (by decide) first rest
    rw [hsplit, hdecode, List.splitOn_append_cons_self, List.splitOn_append_cons_self,
      splitOn_decode_of_notMem hfirst, List.splitOn_eq_singleton hfirst, splitOn_decode rest]
    rfl
  · rw [splitOn_decode_of_notMem h, List.splitOn_eq_singleton h]
    rfl
termination_by bytes.length

theorem completeLines_eq_splitOn_decode (bytes : List UInt8) :
    completeLines bytes = ((((Utf8.decode bytes).splitOn '\n').dropLast.map trim).filter
      (· ≠ [])).map String.ofList := by
  rw [splitOn_decode, ← List.map_dropLast, List.map_map]
  rfl

/-- **Malformed bytes neither swallow nor create a line break.** The decoding is the standard one,
and splits into the pieces that the bytes split into, each decoded by itself. The assembler hands
out these pieces of the text of all its bytes, and holds the bytes of the last one. So a `part`
without a line feed changes the piece that it stands in, and leaves the pieces before and after it
as they are without it. -/
theorem decode_keeps_lineBreaks :
    (∀ bytes cs, Utf8.Lossy bytes cs ↔ cs = Utf8.decode bytes) ∧
    (∀ bytes, (Utf8.decode bytes).splitOn '\n' = (bytes.splitOn lineFeed).map Utf8.decode) ∧
    (∀ steps,
      let pieces := (Utf8.decode (Assembler.streamOf steps)).splitOn '\n'
      (Assembler.run {} steps).1.flatten =
        ((pieces.dropLast.map trim).filter (· ≠ [])).map String.ofList ∧
      pieces.getLast? = some (Utf8.decode (Assembler.run {} steps).2.held)) ∧
    (∀ front part rest, lineFeed ∉ part →
      (Utf8.decode (front ++ part ++ rest)).splitOn '\n' =
        ((Utf8.decode front).splitOn '\n').dropLast ++
          Utf8.decode (unended front ++ part ++ started rest) ::
            ((Utf8.decode rest).splitOn '\n').tail) := by
  refine ⟨fun _ _ => Utf8.lossy_iff, splitOn_decode, fun steps => ⟨?_, ?_⟩,
    fun front part rest h => ?_⟩
  · rw [(Assembler.run_eq steps).1, completeLines_eq_splitOn_decode]
  · rw [splitOn_decode, splitOn_eq_concat_unended, ← (Assembler.run_eq steps).2, List.map_append]
    exact List.getLast?_concat
  · simp only [splitOn_decode]
    rw [splitOn_append_append h, List.map_append, List.map_cons, List.map_dropLast, List.map_tail]

theorem decode_keeps_lineBreaks_truncated :
    lineFeed ∉ ([0xE2, 0x82] : List UInt8) ∧
    (Utf8.decode ([0x61] ++ [0xE2, 0x82] ++ [0x0A, 0x62])).splitOn '\n' =
      [['a', Utf8.replacement], ['b']] :=
  ⟨by decide, (decode_keeps_lineBreaks.2.2.2 [0x61] [0xE2, 0x82] [0x0A, 0x62] (by decide)).trans
    (by decide)⟩

end BenchLedger.Capture
