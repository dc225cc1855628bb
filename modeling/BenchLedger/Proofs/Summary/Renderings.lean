import BenchLedger.Console
import BenchLedger.Proofs.Ledger.Cells
import BenchLedger.Proofs.Summary.Status

/-!
# The report and the row tell the same

The report and the ledger row of a summary are rendered apart, with units and places of their own.
A line of the report either says nothing of the summary or is an entry: a text between a lead and a
trail, of which no lead starts another (`Shows`). So the entries are read back by their leads
(`shown_text`), and what they show is compared with the cells of the row: `report_row_agree`.
-/

namespace BenchLedger

open Decimal Text

namespace Report

/-! ## Reading a report -/

/-- What stands between `lead` and `trail` if they are the two ends of a line. -/
def between? (lead trail line : List Char) : Option (List Char) := do
  let rest ← after? lead line
  let back ← after? trail.reverse rest.reverse
  return back.reverse

/-- What the lines of a report show between two texts, in the order of the lines. -/
def shown (lead trail : String) (report : List Char) : List (List Char) :=
  (report.splitOn '\n').filterMap (between? lead.toList trail.toList)

theorem between?_self (lead trail cs : List Char) :
    between? lead trail (lead ++ cs ++ trail) = some cs := by
  have hlead : after? lead (lead ++ cs ++ trail) = some (cs ++ trail) :=
    after?_eq_some_iff.2 (List.append_assoc lead cs trail)
  have htrail : after? trail.reverse (cs ++ trail).reverse = some cs.reverse :=
    after?_eq_some_iff.2 List.reverse_append
  rw [between?, hlead, Option.bind_eq_bind, Option.bind_some, htrail]
  simp

theorem between?_of_silent {lead trail line : List Char} (h : after? lead line = none) :
    between? lead trail line = none := by
  rw [between?, h]
  rfl

/-! ## Entries -/

/-- A line of a report that shows something of the summary. -/
structure Entry where
  lead : String
  trail : String
  text : List Char

def Entry.line (e : Entry) : List Char := e.lead.toList ++ e.text ++ e.trail.toList

def statusEntry (s : Status) : Entry := ⟨"Status: ", "", s.label.toList⟩

def throughputHint : String := "No MIPS data captured (emulator may not have started)"

def profilerHint : String := "No profiler data captured (profiler may be disabled)"

def throughputEntries : Option ThroughputFigures → List Entry
  | none => [⟨throughputHint, "", []⟩]
  | some t =>
    [⟨"MIPS Performance (", " samples):", digits t.count⟩,
     ⟨"  Average: ", " MIPS", fixedPlaces 2 t.mean⟩,
     ⟨"  Range:   ", " MIPS", fixedPlaces 2 t.min ++ " - ".toList ++ fixedPlaces 2 t.max⟩] ++
    (t.stdev.map fun d => ⟨"  StdDev:  ", "", fixedPlaces 2 d⟩).toList

def profilerEntries : Option ProfilerFigures → List Entry
  | none => [⟨profilerHint, "", []⟩]
  | some p =>
    [⟨"Profiler Data (", " samples):", digits p.count⟩] ++
    (p.cycles.map fun x => ⟨"  Avg cycles/instr: ", "", fixedPlaces 0 x⟩).toList ++
    (p.execPercent.map fun x => ⟨"  Avg exec %:       ", "", fixedPlaces 0 x ++ ['%']⟩).toList ++
    (p.bandwidth.map fun x =>
      ⟨"  Avg PSRAM BW:     ", "", fixedPlaces 0 x ++ " KB/s".toList⟩).toList ++
    [⟨"  Bottleneck:       ", "", p.bottleneck.label.toList⟩]

/-- All entries of a report, in the order of their lines. -/
def entries (s : Summary) : List Entry :=
  statusEntry s.status :: (throughputEntries s.throughput ++ profilerEntries s.profiler)

/-- What the entries with a lead show. -/
def texts (lead : String) (es : List Entry) : List (List Char) :=
  es.filterMap fun e => if e.lead = lead then some e.text else none

/-- The leads of entries, each with the trail that goes with it. -/
def frames : List (String × String) :=
  [("Status: ", ""), (throughputHint, ""), ("MIPS Performance (", " samples):"),
   ("  Average: ", " MIPS"), ("  Range:   ", " MIPS"), ("  StdDev:  ", ""), (profilerHint, ""),
   ("Profiler Data (", " samples):"), ("  Avg cycles/instr: ", ""), ("  Avg exec %:       ", ""),
   ("  Avg PSRAM BW:     ", ""), ("  Bottleneck:       ", "")]

/-- An entry as a report has it. -/
structure Entry.Framed (e : Entry) : Prop where
  frame : (e.lead, e.trail) ∈ frames
  text : '\n' ∉ e.text

theorem eq_of_starts : ∀ f ∈ frames, ∀ g ∈ frames, f.1.toList <+: g.1.toList → f = g := by
  decide +kernel

theorem between?_line {e : Entry} {lead trail : String} (he : (e.lead, e.trail) ∈ frames)
    (h : (lead, trail) ∈ frames) : between? lead.toList trail.toList e.line =
      if e.lead = lead then some e.text else none := by
  have hline : e.lead.toList <+: e.line := ⟨e.text ++ e.trail.toList, by simp [Entry.line]⟩
  split_ifs with hlead
  · subst hlead
    have hframe := eq_of_starts _ h _ he (List.prefix_refl _)
    rw [(Prod.mk.inj hframe).2]
    exact between?_self _ _ _
  · refine between?_of_silent ?_
    by_contra hsome
    obtain ⟨rest, hrest⟩ := Option.ne_none_iff_exists'.1 hsome
    have hstarts : lead.toList <+: e.line := ⟨rest, (after?_eq_some_iff.1 hrest).symm⟩
    rcases List.prefix_or_prefix_of_prefix hline hstarts with hprefix | hprefix
    · exact hlead (Prod.mk.inj (eq_of_starts _ he _ h hprefix)).1
    · exact hlead (Prod.mk.inj (eq_of_starts _ h _ he hprefix)).1.symm

theorem lineFeed_notMem_fixedPlaces (places : Nat) (x : Float) : '\n' ∉ fixedPlaces places x :=
  fun h => absurd (plain_fixedPlaces places x _ h) (by decide)

theorem lineFeed_notMem_digits (n : Nat) : '\n' ∉ digits n :=
  fun h => absurd (isDigit_of_mem_digits h) (by decide)

theorem Entry.framed_iff {e : Entry} :
    e.Framed ↔ (e.lead, e.trail) ∈ frames ∧ '\n' ∉ e.text :=
  ⟨fun h => ⟨h.frame, h.text⟩, fun h => ⟨h.1, h.2⟩⟩

theorem framed_statusEntry (s : Status) : (statusEntry s).Framed := by
  refine ⟨List.mem_cons_self, ?_⟩
  cases s <;> decide

theorem framed_throughputEntries (t : Option ThroughputFigures) :
    ∀ e ∈ throughputEntries t, e.Framed := by
  simp only [Entry.framed_iff]
  obtain _ | ⟨count, mean, min, max, stdev⟩ := t
  · simp [throughputEntries, frames]
  · cases stdev <;>
      simp [throughputEntries, frames, lineFeed_notMem_fixedPlaces, lineFeed_notMem_digits]

theorem framed_profilerEntries (p : Option ProfilerFigures) :
    ∀ e ∈ profilerEntries p, e.Framed := by
  have hbottleneck (b : Profiler.Bottleneck) : '\n' ∉ b.label.toList := by cases b <;> decide
  simp only [Entry.framed_iff]
  obtain _ | ⟨count, cycles, execPercent, bandwidth, bottleneck⟩ := p
  · simp [profilerEntries, frames]
  · cases cycles <;> cases execPercent <;> cases bandwidth <;>
      simp [profilerEntries, frames, lineFeed_notMem_fixedPlaces, lineFeed_notMem_digits,
        hbottleneck]

/-! ## The lines of a report -/

/-- The lines that show nothing. -/
def mute : List (List Char) := [[], rule, "PERFORMANCE CAPTURE SUMMARY".toList]

/-- The lines are mute save for those of the entries, which stand in their order. -/
inductive Shows : List (List Char) → List Entry → Prop
  | nil : Shows [] []
  | mute {line : List Char} {lines : List (List Char)} {es : List Entry} (h : line ∈ mute)
      (hrest : Shows lines es) : Shows (line :: lines) es
  | entry {e : Entry} {lines : List (List Char)} {es : List Entry} (h : e.Framed)
      (hrest : Shows lines es) : Shows (e.line :: lines) (e :: es)

namespace Shows

variable {lines lines' : List (List Char)} {es es' : List Entry}

theorem append (h : Shows lines es) (h' : Shows lines' es') :
    Shows (lines ++ lines') (es ++ es') := by
  induction h with
  | nil => exact h'
  | mute h _ ih => exact .mute h ih
  | entry h _ ih => exact .entry h ih

theorem of_subset_mute (h : lines ⊆ Report.mute) : Shows lines [] := by
  induction lines with
  | nil => exact .nil
  | cons line lines ih =>
    obtain ⟨hline, hlines⟩ := List.cons_subset.1 h
    exact .mute hline (ih hlines)

theorem of_entries (h : ∀ e ∈ es, e.Framed) : Shows (es.map Entry.line) es := by
  induction es with
  | nil => exact .nil
  | cons e es ih =>
    obtain ⟨he, hes⟩ := List.forall_mem_cons.1 h
    exact .entry he (ih hes)

theorem lineFeed_notMem (h : Shows lines es) : ∀ line ∈ lines, '\n' ∉ line := by
  have hmute : ∀ line ∈ Report.mute, '\n' ∉ line := by decide +kernel
  have hframes : ∀ f ∈ frames, '\n' ∉ f.1.toList ∧ '\n' ∉ f.2.toList := by decide +kernel
  induction h with
  | nil => nofun
  | mute h _ ih => exact List.forall_mem_cons.2 ⟨hmute _ h, ih⟩
  | entry h _ ih =>
    obtain ⟨hlead, htrail⟩ := hframes _ h.frame
    exact List.forall_mem_cons.2 ⟨by simp [Entry.line, hlead, h.text, htrail], ih⟩

theorem filterMap_between? {lead trail : String} (h : Shows lines es)
    (hlead : (lead, trail) ∈ frames) : lines.filterMap (between? lead.toList trail.toList) = texts lead es := by
  have hmute : ∀ f ∈ frames, ∀ line ∈ Report.mute, after? f.1.toList line = none := by
    decide +kernel
  induction h with
  | nil => rfl
  | mute h _ ih => rw [List.filterMap_cons_none (between?_of_silent (hmute _ hlead _ h)), ih]
  | entry h _ ih =>
    rw [List.filterMap_cons, texts, List.filterMap_cons, between?_line h.frame hlead, ih]
    rfl

end Shows

theorem throughputLines_eq (t : Option ThroughputFigures) :
    throughputLines t = (throughputEntries t).map Entry.line := by
  obtain _ | ⟨count, mean, min, max, stdev⟩ := t
  · rfl
  · cases stdev <;> simp [throughputLines, throughputEntries, Entry.line]

theorem profilerLines_eq (p : Option ProfilerFigures) :
    profilerLines p = (profilerEntries p).map Entry.line := by
  obtain _ | ⟨count, cycles, execPercent, bandwidth, bottleneck⟩ := p
  · rfl
  · cases cycles <;> cases execPercent <;> cases bandwidth <;>
      simp [profilerLines, profilerEntries, Entry.line]

theorem shows_lines (s : Summary) : Shows (lines s) (entries s) := by
  have hheading : Shows heading [] := .of_subset_mute (by decide +kernel)
  have hblank : Shows [[]] [] := .of_subset_mute (by decide)
  have hend : Shows [[], rule] [] := .of_subset_mute (by decide +kernel)
  have hstatus : Shows ["Status: ".toList ++ s.status.label.toList] [statusEntry s.status] := by
    have hline : (statusEntry s.status).line = "Status: ".toList ++ s.status.label.toList :=
      List.append_nil _
    exact hline ▸ .entry (framed_statusEntry s.status) .nil
  have hthroughput := Shows.of_entries (framed_throughputEntries s.throughput)
  have hprofiler := Shows.of_entries (framed_profilerEntries s.profiler)
  rw [← throughputLines_eq] at hthroughput
  rw [← profilerLines_eq] at hprofiler
  have hlines : lines s = heading ++ ["Status: ".toList ++ s.status.label.toList] ++ [[]] ++
      throughputLines s.throughput ++ [[]] ++ profilerLines s.profiler ++ [[], rule] := rfl
  have hshows := (((((hheading.append hstatus).append hblank).append hthroughput).append
    hblank).append hprofiler).append hend
  rw [hlines]
  simpa [entries] using hshows

theorem shown_text (s : Summary) {lead trail : String} (h : (lead, trail) ∈ frames) :
    shown lead trail (text s).toList = texts lead (entries s) := by
  have hlines : (text s).toList.splitOn '\n' = lines s := by
    rw [text, String.toList_ofList]
    exact List.splitOn_intercalate _ (shows_lines s).lineFeed_notMem (by simp [lines])
  rw [shown, hlines, (shows_lines s).filterMap_between? h]

/-! ## What a report shows -/

def throughputLeads : List String :=
  [throughputHint, "MIPS Performance (", "  Average: ", "  Range:   ", "  StdDev:  "]

def profilerLeads : List String :=
  [profilerHint, "Profiler Data (", "  Avg cycles/instr: ", "  Avg exec %:       ",
   "  Avg PSRAM BW:     ", "  Bottleneck:       "]

theorem lead_mem_throughputEntries (t : Option ThroughputFigures) :
    ∀ e ∈ throughputEntries t, e.lead ∈ throughputLeads := by
  obtain _ | ⟨count, mean, min, max, _ | stdev⟩ := t <;> simp [throughputEntries, throughputLeads]

theorem lead_mem_profilerEntries (p : Option ProfilerFigures) :
    ∀ e ∈ profilerEntries p, e.lead ∈ profilerLeads := by
  obtain _ | ⟨count, cycles, execPercent, bandwidth, bottleneck⟩ := p
  · simp [profilerEntries, profilerLeads]
  · cases cycles <;> cases execPercent <;> cases bandwidth <;>
      simp [profilerEntries, profilerLeads]

theorem texts_of_notMem {lead : String} {es : List Entry} {leads : List String}
    (hleads : ∀ e ∈ es, e.lead ∈ leads) (h : lead ∉ leads) : texts lead es = [] := by
  rw [texts, List.filterMap_eq_nil_iff]
  intro e he
  rw [if_neg]
  rintro rfl
  exact h (hleads e he)

theorem texts_entries (lead : String) (s : Summary) : texts lead (entries s) =
    texts lead [statusEntry s.status] ++ texts lead (throughputEntries s.throughput) ++
      texts lead (profilerEntries s.profiler) := by
  rw [texts, texts, texts, texts, List.append_assoc, ← List.filterMap_append,
    ← List.filterMap_append]
  rfl

theorem texts_statusEntry {lead : String} (h : lead ≠ "Status: ") (s : Status) :
    texts lead [statusEntry s] = [] :=
  List.filterMap_cons_none (if_neg h.symm)

section shown

variable (s : Summary) {lead trail : String}

theorem shown_status : shown "Status: " "" (text s).toList = [s.status.label.toList] := by
  rw [shown_text s List.mem_cons_self, texts_entries,
    texts_of_notMem (lead_mem_throughputEntries _) (by decide),
    texts_of_notMem (lead_mem_profilerEntries _) (by decide)]
  rfl

theorem shown_throughput (h : (lead, trail) ∈ frames) (hlead : lead ∉ "Status: " :: profilerLeads) :
    shown lead trail (text s).toList = texts lead (throughputEntries s.throughput) := by
  rw [List.mem_cons, not_or] at hlead
  rw [shown_text s h, texts_entries, texts_statusEntry hlead.1,
    texts_of_notMem (lead_mem_profilerEntries _) hlead.2, List.nil_append, List.append_nil]

theorem shown_profiler (h : (lead, trail) ∈ frames) (hlead : lead ∉ "Status: " :: throughputLeads) :
    shown lead trail (text s).toList = texts lead (profilerEntries s.profiler) := by
  rw [List.mem_cons, not_or] at hlead
  rw [shown_text s h, texts_entries, texts_statusEntry hlead.1,
    texts_of_notMem (lead_mem_throughputEntries _) hlead.2, List.nil_append, List.nil_append]

theorem shown_samples : shown "MIPS Performance (" " samples):" (text s).toList =
    (s.throughput.map fun t => digits t.count).toList := by
  rw [shown_throughput s (by decide) (by decide)]
  rcases s.throughput with _ | ⟨count, mean, min, max, _ | stdev⟩ <;>
    simp [texts, throughputEntries, throughputHint]

theorem shown_throughputHint : shown throughputHint "" (text s).toList =
    if s.throughput.isSome then [] else [[]] := by
  rw [shown_throughput s (by decide) (by decide)]
  rcases s.throughput with _ | ⟨count, mean, min, max, _ | stdev⟩ <;>
    simp [texts, throughputEntries, throughputHint]

theorem shown_average : shown "  Average: " " MIPS" (text s).toList =
    (s.throughput.map fun t => fixedPlaces 2 t.mean).toList := by
  rw [shown_throughput s (by decide) (by decide)]
  rcases s.throughput with _ | ⟨count, mean, min, max, _ | stdev⟩ <;>
    simp [texts, throughputEntries, throughputHint]

theorem shown_range : shown "  Range:   " " MIPS" (text s).toList =
    (s.throughput.map fun t =>
      fixedPlaces 2 t.min ++ " - ".toList ++ fixedPlaces 2 t.max).toList := by
  rw [shown_throughput s (by decide) (by decide)]
  rcases s.throughput with _ | ⟨count, mean, min, max, _ | stdev⟩ <;>
    simp [texts, throughputEntries, throughputHint]

theorem shown_deviation : shown "  StdDev:  " "" (text s).toList =
    ((s.throughput.bind (·.stdev)).map (fixedPlaces 2)).toList := by
  rw [shown_throughput s (by decide) (by decide)]
  rcases s.throughput with _ | ⟨count, mean, min, max, _ | stdev⟩ <;>
    simp [texts, throughputEntries, throughputHint]

theorem shown_blocks : shown "Profiler Data (" " samples):" (text s).toList =
    (s.profiler.map fun p => digits p.count).toList := by
  rw [shown_profiler s (by decide) (by decide)]
  rcases s.profiler with _ | ⟨count, _ | cycles, _ | execPercent, _ | bandwidth, bottleneck⟩ <;>
    simp [texts, profilerEntries, profilerHint]

theorem shown_profilerHint : shown profilerHint "" (text s).toList =
    if s.profiler.isSome then [] else [[]] := by
  rw [shown_profiler s (by decide) (by decide)]
  rcases s.profiler with _ | ⟨count, _ | cycles, _ | execPercent, _ | bandwidth, bottleneck⟩ <;>
    simp [texts, profilerEntries, profilerHint]

theorem shown_cycles : shown "  Avg cycles/instr: " "" (text s).toList =
    ((s.profiler.bind (·.cycles)).map (fixedPlaces 0)).toList := by
  rw [shown_profiler s (by decide) (by decide)]
  rcases s.profiler with _ | ⟨count, _ | cycles, _ | execPercent, _ | bandwidth, bottleneck⟩ <;>
    simp [texts, profilerEntries, profilerHint]

theorem shown_execPercent : shown "  Avg exec %:       " "" (text s).toList =
    ((s.profiler.bind (·.execPercent)).map fun x => fixedPlaces 0 x ++ ['%']).toList := by
  rw [shown_profiler s (by decide) (by decide)]
  rcases s.profiler with _ | ⟨count, _ | cycles, _ | execPercent, _ | bandwidth, bottleneck⟩ <;>
    simp [texts, profilerEntries, profilerHint]

theorem shown_bandwidth : shown "  Avg PSRAM BW:     " "" (text s).toList =
    ((s.profiler.bind (·.bandwidth)).map fun x => fixedPlaces 0 x ++ " KB/s".toList).toList := by
  rw [shown_profiler s (by decide) (by decide)]
  rcases s.profiler with _ | ⟨count, _ | cycles, _ | execPercent, _ | bandwidth, bottleneck⟩ <;>
    simp [texts, profilerEntries, profilerHint]

theorem shown_bottleneck : shown "  Bottleneck:       " "" (text s).toList =
    (s.profiler.map (·.bottleneck.label.toList)).toList := by
  rw [shown_profiler s (by decide) (by decide)]
  rcases s.profiler with _ | ⟨count, _ | cycles, _ | execPercent, _ | bandwidth, bottleneck⟩ <;>
    simp [texts, profilerEntries, profilerHint]

end shown

end Report

/-! ## The agreement -/

/-- What a cell of a row shows: its text, unless it says that there is none. -/
def Ledger.present (cell : List Char) : List (List Char) :=
  if cell = "N/A".toList then [] else [cell]

theorem Ledger.present_orAbsent {α : Type} {figure : Option α} {text : α → List Char}
    (h : ∀ a, '/' ∈ text a → ' ' ∈ text a) :
    present (orAbsent (figure.map text)) = (figure.map text).toList := by
  cases figure with
  | none => rfl
  | some a =>
    have hne : orAbsent ((some a).map text) ≠ "N/A".toList := by
      rw [Ne, orAbsent_eq_iff h]
      nofun
    exact if_neg hne

namespace Report

/-- A report shows what the cells of a row show, each figure with the same digits. A range is spread
out in the report. -/
structure Tells (report mean range cycles exec bandwidth bottleneck status : List Char) : Prop where
  status : shown "Status: " "" report = [status]
  average : shown "  Average: " " MIPS" report = Ledger.present mean
  range : range = "N/A".toList ∧ shown "  Range:   " " MIPS" report = [] ∨
    range ≠ "N/A".toList ∧ ∃ least greatest, ' ' ∉ least ∧ ' ' ∉ greatest ∧
      range = least ++ '-' :: greatest ∧
      shown "  Range:   " " MIPS" report = [least ++ " - ".toList ++ greatest]
  cycles : shown "  Avg cycles/instr: " "" report = Ledger.present cycles
  exec : shown "  Avg exec %:       " "" report = Ledger.present exec
  bandwidth : shown "  Avg PSRAM BW:     " "" report = Ledger.present bandwidth
  bottleneck : shown "  Bottleneck:       " "" report = Ledger.present bottleneck

theorem blank_notMem_fixedPlaces (places : Nat) (x : Float) : ' ' ∉ fixedPlaces places x := by
  intro h
  rcases mem_fixedPlaces h with hdigit | hsign
  · exact absurd hdigit (by decide)
  · exact absurd hsign (by decide)

theorem slash_notMem_range (t : ThroughputFigures) :
    '/' ∉ fixedPlaces 2 t.min ++ '-' :: fixedPlaces 2 t.max := by
  simp [Ledger.slash_notMem_fixedPlaces]

theorem range_agrees (s : Summary) (range : List Char) (hrange : range = Ledger.orAbsent
      (s.throughput.map fun t => fixedPlaces 2 t.min ++ '-' :: fixedPlaces 2 t.max)) :
    range = "N/A".toList ∧ shown "  Range:   " " MIPS" (text s).toList = [] ∨
    range ≠ "N/A".toList ∧ ∃ least greatest, ' ' ∉ least ∧ ' ' ∉ greatest ∧
      range = least ++ '-' :: greatest ∧
      shown "  Range:   " " MIPS" (text s).toList = [least ++ " - ".toList ++ greatest] := by
  have hpresent := @Ledger.orAbsent_eq_iff _ s.throughput _
    fun t h => absurd h (slash_notMem_range t)
  rw [← hrange] at hpresent
  rw [shown_range]
  cases ht : s.throughput with
  | none => exact .inl ⟨hpresent.2 ht, rfl⟩
  | some t =>
    rw [ht] at hpresent hrange
    refine .inr ⟨fun habsent => absurd (hpresent.1 habsent) (Option.some_ne_none t),
      fixedPlaces 2 t.min, fixedPlaces 2 t.max, blank_notMem_fixedPlaces 2 t.min,
      blank_notMem_fixedPlaces 2 t.max, hrange, rfl⟩

end Report

/-- **The report and the ledger row of a summary tell the same.** Whatever parts of the summary are
absent, each figure is shown by one line of the report exactly if its cell is not `N/A`, and then
with the text of the cell; the status is the same. A deviation is shown exactly if there is one, and
each of the two sections is either there with its heading or replaced by its hint. The console is
given the report and one line feed. -/
theorem report_row_agree (s : Summary) (label : String) (time : Moment) :
    ∃ stamp labelCell mean range cycles exec bandwidth bottleneck status,
      Ledger.pieces (Ledger.row s label time) = [] :: [stamp, labelCell, mean, range, cycles, exec,
        bandwidth, bottleneck, status].map Ledger.spaced ++ [['\n']] ∧
      Report.Tells (Report.text s).toList mean range cycles exec bandwidth bottleneck status ∧
      (Report.shown "  StdDev:  " "" (Report.text s).toList =
        ((s.throughput.bind (·.stdev)).map (fixedPlaces 2)).toList) ∧
      (Report.shown "MIPS Performance (" " samples):" (Report.text s).toList =
        (s.throughput.map fun t => digits t.count).toList ∧
      Report.shown Report.throughputHint "" (Report.text s).toList =
        if s.throughput.isSome then [] else [[]]) ∧
      (Report.shown "Profiler Data (" " samples):" (Report.text s).toList =
        (s.profiler.map fun p => digits p.count).toList ∧
      Report.shown Report.profilerHint "" (Report.text s).toList =
        if s.profiler.isSome then [] else [[]]) ∧
      ∀ written, (Console.printLine ⟨true, written⟩ (Report.text s)).written =
        written ++ (Report.text s ++ "\n") := by
  refine ⟨_, _, _, _, _, _, _, _, _, Ledger.pieces_row s label time, ?_, Report.shown_deviation s,
    ⟨Report.shown_samples s, Report.shown_throughputHint s⟩,
    ⟨Report.shown_blocks s, Report.shown_profilerHint s⟩,
    fun written => congrArg Console.written (Console.printLine_of_working rfl _)⟩
  refine { status := Report.shown_status s, average := ?_, range := Report.range_agrees s _ rfl,
           cycles := ?_, exec := ?_, bandwidth := ?_, bottleneck := ?_ }
  · rw [Report.shown_average, Ledger.present_orAbsent]
    exact fun t h => absurd h (Ledger.slash_notMem_fixedPlaces 2 t.mean)
  · rw [Report.shown_cycles, Ledger.present_orAbsent]
    exact fun x h => absurd h (Ledger.slash_notMem_fixedPlaces 0 x)
  · rw [Report.shown_execPercent, Ledger.present_orAbsent]
    exact fun x h => absurd h (by simp [Ledger.slash_notMem_fixedPlaces])
  · rw [Report.shown_bandwidth, Ledger.present_orAbsent]
    exact fun x h => List.mem_append_right _ (by decide)
  · have hslash (b : Profiler.Bottleneck) : '/' ∉ b.label.toList := by cases b <;> decide
    rw [Report.shown_bottleneck, Ledger.present_orAbsent]
    exact fun p h => absurd h (hslash p.bottleneck)

end BenchLedger
