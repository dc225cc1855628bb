import BenchLedger.Ledger.Row
import BenchLedger.Proofs.Json.ReadBack
import BenchLedger.Proofs.Text.Folding
import BenchLedger.Proofs.Text.Lines
import BenchLedger.Proofs.Text.Utf8
import BenchLedger.Record.File
import BenchLedger.Report

/-!
# Where the status is shown

The status of a capture is a question about its set of lines (`Status.ofLines_eq_of_mem`), and each
of the three renderings of a summary shows it: it can be read back from the report, from the last
cell of a ledger row whatever the label is, and from the text of a record.
-/

namespace BenchLedger

open Text

/-! ## The status of lines -/

/-- The status of captured lines. -/
def Status.ofLines (lines : List String) : Status := .ofMarkers (.ofLines lines)

/-- A line reports a failed assertion, in any mixture of upper and lower case. -/
def IsFailure (line : String) : Prop := OccursFolded "assert failed".toList line.toList

/-- A line reports a connection. -/
def IsConnection (line : String) : Prop := "WiFi connected".toList <:+: line.toList

theorem foldable_failure : Foldable "assert failed".toList := by
  have hascii : "assert failed".toList.all (·.toNat < 128) = true := by decide
  refine ⟨fun c hc => ?_, by decide, by decide⟩
  exact of_decide_eq_true (List.all_eq_true.1 hascii c hc)

theorem reportsFailure_iff {line : String} :
    Markers.reportsFailure line = true ↔ IsFailure line :=
  occursIn_lowerCase_iff foldable_failure

theorem reportsConnection_iff {line : String} :
    Markers.reportsConnection line = true ↔ IsConnection line :=
  occursIn_iff

theorem failure_ofLines_iff {lines : List String} :
    (Markers.ofLines lines).failure = true ↔ ∃ line ∈ lines, IsFailure line := by
  simp only [Markers.ofLines, List.any_eq_true, reportsFailure_iff]

theorem text_failureMarker (L : LowerCasing) :
    L.text "assert failed".toList = "assert failed".toList := by
  have hfolds : "assert failed".toList.map Char.toLower = "assert failed".toList := by decide
  have hself := L.within_window (hfolds.symm ▸ foldable_failure.ascii) [] []
  rwa [hfolds] at hself

/-- **The failure marker is found in any case of its ASCII letters, and nowhere else.** A capture is
marked exactly if one of its lines contains it, so a marker that is split across two lines is not
seen. Every lower case that goes character by character marks the same captures. A character outside
ASCII takes part in no marker: what stands on its two sides decides, each side by itself. -/
theorem failure_ofLines (lines : List String) :
    ((Markers.ofLines lines).failure = true ↔ ∃ line ∈ lines, IsFailure line) ∧
    (∀ L : LowerCasing, (Markers.ofLines lines).failure = lines.any fun line =>
      occursIn (L.text "assert failed".toList) (L.text line.toList)) ∧
    ∀ front c back, 128 ≤ c.toNat →
      (IsFailure (.ofList (front ++ c :: back)) ↔
        IsFailure (.ofList front) ∨ IsFailure (.ofList back)) := by
  refine ⟨failure_ofLines_iff, fun L => ?_, fun front c back hc => ?_⟩
  · refine congrArg lines.any (funext fun line => ?_)
    rw [Bool.eq_iff_iff, reportsFailure_iff, occursIn_iff, text_failureMarker,
      L.infix_text_iff foldable_failure]
    rfl
  · simp only [IsFailure, String.toList_ofList]
    exact occursFolded_append_cons foldable_failure hc front back

/-- The lower case of U+0130 starts with an `i`, but does not complete the marker. -/
theorem failure_ofLines_dottedI : 128 ≤ '\u0130'.toNat ∧
    ¬IsFailure (.ofList ("assert fa".toList ++ '\u0130' :: "led".toList)) := by
  have hascii : 128 ≤ '\u0130'.toNat := by decide
  have hsides : ¬(IsFailure (.ofList "assert fa".toList) ∨ IsFailure (.ofList "led".toList)) := by
    rw [← reportsFailure_iff, ← reportsFailure_iff]
    decide +kernel
  exact ⟨hascii, mt ((failure_ofLines []).2.2 _ _ _ hascii).1 hsides⟩

/-- Neither of two lines shows the marker that they would form together. -/
example : (Markers.ofLines ["assert", " failed"]).failure = false := by decide +kernel

theorem connected_ofLines_iff {lines : List String} :
    (Markers.ofLines lines).connected = true ↔ ∃ line ∈ lines, IsConnection line := by
  simp only [Markers.ofLines, List.any_eq_true, reportsConnection_iff]

theorem Status.ofMarkers_eq_error {m : Markers} : ofMarkers m = .error ↔ m.failure = true := by
  unfold ofMarkers
  split_ifs with hfailure hconnected
  · simp [hfailure]
  · simp [hfailure]
  · simp [hfailure]

theorem Status.ofMarkers_eq_connected {m : Markers} :
    ofMarkers m = .connected ↔ ¬m.failure = true ∧ m.connected = true := by
  unfold ofMarkers
  split_ifs with hfailure hconnected
  · simp [hfailure]
  · simp [hfailure, hconnected]
  · simp [hconnected]

theorem Status.ofMarkers_eq_unknown {m : Markers} :
    ofMarkers m = .unknown ↔ ¬m.failure = true ∧ ¬m.connected = true := by
  unfold ofMarkers
  split_ifs with hfailure hconnected
  · simp [hfailure]
  · simp [hconnected]
  · simp [hfailure, hconnected]

theorem Status.label_inj {s s' : Status} : s.label.toList = s'.label.toList ↔ s = s' := by
  cases s <;> cases s' <;> decide

section lines

variable {lines lines' : List String}

theorem Status.ofLines_eq_error : ofLines lines = .error ↔ ∃ line ∈ lines, IsFailure line :=
  ofMarkers_eq_error.trans failure_ofLines_iff

theorem Status.ofLines_eq_connected : ofLines lines = .connected ↔
    (∀ line ∈ lines, ¬IsFailure line) ∧ ∃ line ∈ lines, IsConnection line := by
  rw [ofLines, ofMarkers_eq_connected, failure_ofLines_iff, connected_ofLines_iff]
  simp only [not_exists, not_and]

theorem Status.ofLines_eq_unknown : ofLines lines = .unknown ↔
    ∀ line ∈ lines, ¬IsFailure line ∧ ¬IsConnection line := by
  rw [ofLines, ofMarkers_eq_unknown, failure_ofLines_iff, connected_ofLines_iff]
  simp only [not_exists, not_and, forall_and]

theorem Status.ofLines_eq_of_mem (h : ∀ line, line ∈ lines' ↔ line ∈ lines) :
    ofLines lines' = ofLines lines := by
  have hany (p : String → Bool) : lines'.any p = lines.any p := by
    rw [Bool.eq_iff_iff, List.any_eq_true, List.any_eq_true]
    simp only [h]
  rw [ofLines, ofLines, Markers.ofLines, Markers.ofLines, hany, hany]

end lines

/-! ## The report -/

/-- The status that a report shows: what follows the word on the first line that starts with it. -/
def Report.status? (report : List Char) : Option (List Char) :=
  (report.splitOn '\n').findSome? (after? "Status: ".toList)

/-- The lines of a report in front of its status. -/
def Report.heading : List (List Char) := [[], rule, "PERFORMANCE CAPTURE SUMMARY".toList, rule, []]

theorem Report.status?_text (s : Summary) :
    status? (text s).toList = some s.status.label.toList := by
  have htext : (text s).toList =
      ['\n'].intercalate (heading ++ ["Status: ".toList ++ s.status.label.toList] ++
        [] :: (throughputLines s.throughput ++ [[]] ++ profilerLines s.profiler ++ [[], rule])) := by
    rw [text, String.toList_ofList, lines, heading]
    simp
  have hlines : ∀ xs ∈ heading ++ ["Status: ".toList ++ s.status.label.toList], '\n' ∉ xs := by
    cases s.status <;> decide
  have hheading : heading.findSome? (after? "Status: ".toList) = none := by decide
  have hread : after? "Status: ".toList ("Status: ".toList ++ s.status.label.toList) =
      some s.status.label.toList := after?_eq_some_iff.2 rfl
  rw [status?, htext, splitOn_intercalate_append hlines (List.cons_ne_nil _ _), List.findSome?_append,
    List.findSome?_append, hheading, List.findSome?_singleton, hread]
  rfl

/-! ## The ledger row -/

/-- The last cell of a row: what stands between its last two bars. -/
def Ledger.lastCell? (row : List Char) : Option (List Char) :=
  (row.splitOn '|').dropLast.getLast?

theorem Ledger.exists_front (cells : List (List Char)) : ∃ front,
    '|' :: cells.flatMap (fun cell => ' ' :: cell ++ [' ', '|']) = front ++ ['|'] := by
  rcases List.eq_nil_or_concat cells with rfl | ⟨before, last, rfl⟩
  · exact ⟨[], rfl⟩
  · exact ⟨'|' :: before.flatMap (fun cell => ' ' :: cell ++ [' ', '|']) ++ ' ' :: last ++ [' '],
      by simp⟩

/-- The label may hold bars, but the last cell stands behind it. -/
theorem Ledger.lastCell?_row (s : Summary) (label : String) (time : Moment) :
    lastCell? (row s label time) = some (' ' :: s.status.label.toList ++ [' ']) := by
  obtain ⟨front, hfront⟩ :=
    exists_front ([time.rowStamp, escapeBars label.toList] ++ figureCells s)
  have hrow : row s label time =
      front ++ '|' :: ((' ' :: s.status.label.toList ++ [' ']) ++ '|' :: ['\n']) := by
    rw [row, cells, List.flatMap_append, ← List.cons_append, hfront]
    simp
  have hcell : '|' ∉ ' ' :: s.status.label.toList ++ [' '] := by
    cases s.status <;> decide
  have hend : ['\n'].splitOn '|' = [['\n']] := rfl
  rw [lastCell?, hrow, List.splitOn_append_cons_self,
    List.splitOn_append_cons_self_of_not_mem hcell, hend]
  simp

/-! ## The record -/

/-- The status that the bytes of a record tell, if they are a document that has one. -/
def Record.status? (bytes : List UInt8) : Option (List Char) := do
  let document ← Json.read? (Utf8.decode bytes)
  let summary ← document.field? "summary"
  let status ← summary.field? "status"
  status.text?

theorem Record.status?_content (record : Record) :
    status? record.content = some record.summary.status.label.toList := by
  have hread : Json.read? (Utf8.decode record.content) = some record.document.reading := by
    rw [content, Utf8.decode_encode]
    exact Json.read?_print record.document
  have hsummary : record.document.reading.field? "summary" = some record.summary.document.reading :=
    rfl
  have hstatus : record.summary.document.reading.field? "status" =
      some (.text record.summary.status.label.toList) := rfl
  rw [status?, hread]
  simp only [Option.bind_eq_bind, Option.bind_some, hsummary, hstatus]
  rfl

end BenchLedger
