import BenchLedger.Proofs.Capture.Assembly
import BenchLedger.Proofs.Ledger.Calls
import BenchLedger.Proofs.Ledger.Lines

/-!
# Added rows as lines of a file

A row that is added to a ledger is a line of its own if the ledger ends with a line feed, or is
empty. The row is written right behind the bytes that stand there, so a last line that no line feed
ends is continued by the row: `add_fileLines`. Every added row ends with a line feed, and over a
whole history only the first row can meet such a line (`fileLines_rows`).
-/

namespace BenchLedger.Ledger

open Disk Text
open Capture (lineFeed unended unended_of_notMem unended_append_cons started_of_notMem
  splitOn_append splitOn_eq_concat_unended)

/-! ## The lines of a file -/

/-- The lines of a file: what stands between its line feeds, but for an empty piece at the end. -/
def fileLines (bytes : List UInt8) : List (List UInt8) :=
  if (bytes.splitOn lineFeed).getLast? = some [] then (bytes.splitOn lineFeed).dropLast
  else bytes.splitOn lineFeed

/-- The lines that a line feed ends. -/
def endedLines (bytes : List UInt8) : List (List UInt8) := (bytes.splitOn lineFeed).dropLast

variable {bytes line : List UInt8}

theorem endedLines_of_notMem (h : lineFeed ∉ bytes) : endedLines bytes = [] := by
  rw [endedLines, List.splitOn_eq_singleton h]
  rfl

theorem endedLines_append_cons (front rest : List UInt8) :
    endedLines (front ++ lineFeed :: rest) = front.splitOn lineFeed ++ endedLines rest := by
  rw [endedLines, List.splitOn_append_cons_self,
    List.dropLast_append_of_ne_nil (List.splitOn_ne_nil _ _), endedLines]

theorem splitOn_lineFeed_append (bytes : List UInt8) (h : lineFeed ∉ line) :
    (bytes ++ line).splitOn lineFeed = endedLines bytes ++ [unended bytes ++ line] := by
  rw [splitOn_append, started_of_notMem h, List.splitOn_eq_singleton h, endedLines]
  rfl

theorem splitOn_lineFeed (bytes : List UInt8) :
    bytes.splitOn lineFeed = endedLines bytes ++ [unended bytes] :=
  splitOn_eq_concat_unended bytes

theorem fileLines_of_ended (h : unended bytes = []) : fileLines bytes = endedLines bytes := by
  rw [fileLines, splitOn_lineFeed, h, List.getLast?_concat, if_pos rfl, List.dropLast_concat]

theorem fileLines_of_unended (h : unended bytes ≠ []) :
    fileLines bytes = endedLines bytes ++ [unended bytes] := by
  rw [fileLines, splitOn_lineFeed, List.getLast?_concat, if_neg (by simpa using h)]

theorem unended_append_line (bytes line : List UInt8) :
    unended (bytes ++ (line ++ [lineFeed])) = [] := by
  rw [← List.append_assoc, unended_append_cons]
  exact unended_of_notMem List.not_mem_nil

theorem fileLines_append_line (bytes : List UInt8) (h : lineFeed ∉ line) :
    fileLines (bytes ++ (line ++ [lineFeed])) = endedLines bytes ++ [unended bytes ++ line] := by
  rw [fileLines_of_ended (unended_append_line bytes line), ← List.append_assoc,
    endedLines_append_cons, endedLines_of_notMem List.not_mem_nil, List.append_nil,
    splitOn_lineFeed_append bytes h]

/-! ## Rows -/

variable {s : Summary} {label : String} {time : Moment}

theorem encode_row (s : Summary) (time : Moment) (hlabel : '\n' ∉ label.toList) :
    Utf8.encode (row s label time) = Utf8.encode (rowLine s label time) ++ [lineFeed] ∧
    lineFeed ∉ Utf8.encode (rowLine s label time) := by
  have hfeed : Utf8.encode ['\n'] = [lineFeed] := by decide
  have hline : '\n' ∉ rowLine s label time := by
    intro h
    have hbreak : '\n' ∈ (rowLine s label time).filter isLineBreak := List.mem_filter.2 ⟨h, rfl⟩
    rw [filter_isLineBreak_rowLine] at hbreak
    exact hlabel (List.mem_of_mem_filter hbreak)
  refine ⟨?_, Utf8.byte_notMem_encode (c := '\n') (by decide) hline⟩
  rw [row_eq, Utf8.encode_append, hfeed]

/-- **An added row is a line of its own exactly if the ledger ends with a line feed or is empty.**
When the row of a label without a line feed is added to a ledger that a path leads to, the path
leads there still, and the last line that the file then holds is ended. Its lines are those that it
held before and the row, if the last line was ended before; else they are the same lines but the
last one, and that one continued by the row. -/
theorem add_fileLines {p : Path} {t t' : Tree} {place : Location} {old : List UInt8}
    (hadd : add p s label time t = .ok () t') (hleads : t.locate p = .ok place)
    (hstands : t.get? place = some (.file old)) (hlabel : '\n' ∉ label.toList) :
    ∃ line new, Utf8.encode (row s label time) = line ++ [lineFeed] ∧
      t'.locate p = .ok place ∧ t'.get? place = some (.file new) ∧ unended new = [] ∧
      (fileLines new = fileLines old ++ [line] ↔ unended old = []) ∧
      (unended old ≠ [] → ∃ front, fileLines old = front ++ [unended old] ∧
        fileLines new = front ++ [unended old ++ line]) := by
  obtain ⟨place', hleads', hfiled, hgrew⟩ := add_eq_ok hadd
  obtain rfl : place = place' := by
    rw [hfiled.changes.locate hleads, Except.ok.injEq] at hleads'
    exact hleads'
  rw [hstands] at hgrew
  obtain ⟨hrow, hline⟩ := encode_row s time hlabel
  generalize Utf8.encode (rowLine s label time) = line at hrow hline
  have hnew := hgrew.eq_of_file
  rw [hrow] at hnew
  have hlines := fileLines_append_line old hline
  refine ⟨line, _, hrow, hfiled.changes.locate hleads, hnew, unended_append_line old line,
    ⟨fun hown => ?_, fun hended => ?_⟩, fun hunended => ?_⟩
  · by_contra hunended
    rw [hlines, fileLines_of_unended hunended] at hown
    have hlength := congrArg List.length hown
    simp at hlength
  · rw [hlines, hended, fileLines_of_ended hended, List.nil_append]
  · exact ⟨endedLines old, fileLines_of_unended hunended, hlines⟩

/-- A tree with one file, `ledger`, that holds a sharp and a line feed. -/
def endedLedger : Tree := { entries := [(["ledger".toList], .file [0x23, 0x0A])] }

theorem add_fileLines_ended : ∃ t' new line,
    add ⟨["ledger".toList]⟩ ⟨.unknown, none, none⟩ "capture" ⟨⟨2026, 10, 16⟩, 0, 0⟩ endedLedger =
      .ok () t' ∧
    t'.get? ["ledger".toList] = some (.file new) ∧ fileLines new = [[0x23], line] := by
  have hadd : ∃ t', add ⟨["ledger".toList]⟩ ⟨.unknown, none, none⟩ "capture"
      ⟨⟨2026, 10, 16⟩, 0, 0⟩ endedLedger = .ok () t' := ⟨_, rfl⟩
  obtain ⟨t', hadd⟩ := hadd
  obtain ⟨line, new, -, -, hnew, -, hlines, -⟩ :=
    add_fileLines hadd (by decide +kernel : endedLedger.locate _ = .ok ["ledger".toList]) rfl
      (by decide)
  exact ⟨t', new, line, hadd, hnew, hlines.2 (by decide)⟩

/-- The first row continues a line that is not ended, and is no line of its own. -/
theorem add_fileLines_sharp : ∃ t' new,
    add ⟨["ledger".toList]⟩ ⟨.unknown, none, none⟩ "capture" ⟨⟨2026, 10, 16⟩, 0, 0⟩ sharpLedger =
      .ok () t' ∧
    t'.get? ["ledger".toList] = some (.file new) ∧
    fileLines new ≠ fileLines [0x23] ++
      [Utf8.encode (rowLine ⟨.unknown, none, none⟩ "capture" ⟨⟨2026, 10, 16⟩, 0, 0⟩)] := by
  refine ⟨_, _, rfl, rfl, ?_⟩
  decide +kernel

/-! ## Histories -/

/-- Whether a call can add only rows of one line. -/
def Call.IsOneLine : Call → Prop
  | .create => True
  | .add _ label _ => '\n' ∉ label.toList

/-- The line that a call added: none if it failed. -/
def lineOf : Call × Answer → List (List UInt8)
  | (.add s label time, .ok _) => [Utf8.encode (rowLine s label time)]
  | (.add _ _ _, .error _) | (.create, _) => []

theorem fileLines_rows {base : List UInt8} {entries : List (Call × Answer)}
    (hbase : unended base = []) (hentries : ∀ entry ∈ entries, entry.1.IsOneLine) :
    unended (base ++ Utf8.encode (rows entries)) = [] ∧
    fileLines (base ++ Utf8.encode (rows entries)) = fileLines base ++ entries.flatMap lineOf := by
  induction entries using List.reverseRecOn with
  | nil =>
    have hnothing : base ++ Utf8.encode (rows []) = base := List.append_nil base
    rw [hnothing, List.flatMap_nil, List.append_nil]
    exact ⟨hbase, rfl⟩
  | append_singleton entries entry ih =>
    obtain ⟨hended, hlines⟩ := ih fun earlier h => hentries earlier (List.mem_append_left _ h)
    rw [rows_snoc, Utf8.encode_append, ← List.append_assoc, List.flatMap_append,
      List.flatMap_singleton, ← List.append_assoc, ← hlines]
    match entry with
    | (.add s label time, .ok made) =>
      obtain ⟨hrow, hline⟩ := encode_row s time
        (hentries (.add s label time, .ok made) (by simp))
      rw [rowOf, hrow, lineOf]
      refine ⟨unended_append_line _ _, ?_⟩
      rw [fileLines_append_line _ hline, hended, fileLines_of_ended hended, List.nil_append]
    | (.add _ _ _, .error _) | (.create, _) =>
      simpa [rowOf, lineOf, Utf8.encode] using hended

theorem unended_header : unended (Utf8.encode header.toList) = [] := by
  have hrule : Utf8.encode "|--------|\n".toList =
      Utf8.encode "|--------|".toList ++ [lineFeed] := by decide +kernel
  -- Over any front, since the texts before the last are long to compare.
  have hlast (front : String) : unended (Utf8.encode (front ++ "|--------|\n").toList) = [] := by
    rw [String.toList_append, Utf8.encode_append, hrule]
    exact unended_append_line _ _
  exact hlast _

/-- Whatever calls are made on a path, a new ledger that it leads to at the end holds the lines of
the header, an old one those that it held if the last was ended, and then one line for each row that
was added. -/
theorem makeAll_fileLines {p : Path} {calls : List Call} {t : Tree} {place : Location}
    {content : List UInt8} (hcalls : ∀ call ∈ calls, call.IsOneLine)
    (hleads : (makeAll p calls t).tree.locate p = .ok place)
    (hstands : (makeAll p calls t).tree.get? place = some (.file content)) :
    (t.get? place = none → fileLines content =
      fileLines (Utf8.encode header.toList) ++ (makeAll p calls t).entries.flatMap lineOf) ∧
    ∀ base, t.get? place = some (.file base) → unended base = [] →
      fileLines content = fileLines base ++ (makeAll p calls t).entries.flatMap lineOf := by
  obtain ⟨start, rfl, hstart⟩ := (makeAll_sound p calls t).kept.content hleads hstands
  have hentries : ∀ entry ∈ (makeAll p calls t).entries, entry.1.IsOneLine := by
    intro entry hentry
    refine hcalls _ ?_
    rw [← makeAll_calls p calls t]
    exact List.mem_map_of_mem hentry
  constructor
  · intro hnone
    rcases hstart with hstart | ⟨-, hheader⟩
    · rw [hnone] at hstart
      cases hstart
    · rw [hheader]
      exact (fileLines_rows unended_header hentries).2
  · intro base hbase hended
    rcases hstart with hstart | ⟨hnone, -⟩
    · rw [hbase] at hstart
      cases hstart
      exact (fileLines_rows hended hentries).2
    · rw [hbase] at hnone
      cases hnone

end BenchLedger.Ledger
