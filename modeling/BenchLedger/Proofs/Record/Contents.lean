import BenchLedger.Proofs.Disk.Neighbours
import BenchLedger.Proofs.Session.Conclude
import BenchLedger.Proofs.Summary.Status
import Mathlib.Data.List.Nodup

/-!
# What the file of a record says

The file of a record is one document, whatever stood there before (`Record.keep_document`). It
denotes one reading only, in which every name stands once and from which all of the record comes
back, its numbers as the texts that they were written with.
-/

namespace BenchLedger

open Decimal Disk Json Profiler Text

/-! ## Readings -/

namespace Json

/-- What stands under the names of a path, each within the object before it. -/
def Reading.at? : Reading → List String → Option Reading
  | r, [] => some r
  | r, name :: names => (r.field? name).bind (·.at? names)

/-- Every name stands at most once in its object, at all depths. So all readers find the same under
a name, whether they keep the first or the last of several. -/
inductive Reading.Unambiguous : Reading → Prop
  | null : Unambiguous .null
  | boolean (b : Bool) : Unambiguous (.boolean b)
  | number (text : List Char) : Unambiguous (.number text)
  | text (cs : List Char) : Unambiguous (.text cs)
  | object {fields : List (List Char × Reading)} (hnames : (fields.map (·.1)).Nodup)
      (h : ∀ field ∈ fields, Unambiguous field.2) : Unambiguous (.object fields)

theorem readings_eq_map (fields : List (String × Value)) :
    readings fields = fields.map fun field => (field.1.toList, field.2.reading) := by
  induction fields with
  | nil => rfl
  | cons field fields ih =>
    rw [readings, ih]
    rfl

theorem unambiguous_natural (n : Nat) : (Value.natural n).reading.Unambiguous := .number _

theorem unambiguous_real (x : Float) : (Value.real x).reading.Unambiguous := by
  rw [Value.reading]
  cases numberText? x with
  | none => exact .null
  | some text => exact .number text

theorem unambiguous_text (s : String) : (Value.text s).reading.Unambiguous := .text _

theorem unambiguous_object {fields : List (String × Value)} (names : List String)
    (hsub : (fields.map (·.1)).Sublist names) (hnames : names.Nodup)
    (h : ∀ field ∈ fields, field.2.reading.Unambiguous) :
    (Value.object fields).reading.Unambiguous := by
  rw [Value.reading, readings_eq_map]
  refine .object ?_ fun field hfield => ?_
  · have htexts := List.Nodup.map (fun _ _ => String.toList_inj.1) (hsub.nodup hnames)
    simpa [Function.comp_def] using htexts
  · obtain ⟨field, hmem, rfl⟩ := List.mem_map.1 hfield
    exact h field hmem

end Json

/-! ## The parts of a record -/

theorem map_optionalField (name : String) (figure : Option Float) :
    ((optionalField name figure).map (·.1)).Sublist [name] := by
  cases figure with
  | none => exact List.nil_sublist _
  | some x => exact List.Sublist.refl _

theorem unambiguous_optionalField {name : String} {figure : Option Float} :
    ∀ field ∈ optionalField name figure, field.2.reading.Unambiguous := by
  intro field hfield
  cases figure with
  | none => cases hfield
  | some x =>
    rw [List.mem_singleton.1 hfield]
    exact unambiguous_real x

theorem ThroughputFigures.unambiguous (t : ThroughputFigures) :
    t.document.reading.Unambiguous := by
  have hsub := (List.Sublist.refl ["count", "mean", "min", "max"]).append
    (map_optionalField "stdev" t.stdev)
  rw [document]
  refine unambiguous_object ["count", "mean", "min", "max", "stdev"] (by rwa [List.map_append])
    (by decide) ?_
  simp only [List.forall_mem_append, List.forall_mem_cons]
  exact ⟨⟨unambiguous_natural _, unambiguous_real _, unambiguous_real _, unambiguous_real _, nofun⟩,
    unambiguous_optionalField⟩

theorem ProfilerFigures.unambiguous (p : ProfilerFigures) : p.document.reading.Unambiguous := by
  have hsub := ((((List.Sublist.refl ["count"]).append
    (map_optionalField "cycles_avg" p.cycles)).append
    (map_optionalField "exec_pct_avg" p.execPercent)).append
    (map_optionalField "bandwidth_avg_kbps" p.bandwidth)).append (List.Sublist.refl ["bottleneck"])
  rw [document]
  refine unambiguous_object
    ["count", "cycles_avg", "exec_pct_avg", "bandwidth_avg_kbps", "bottleneck"]
    (by rwa [List.map_append, List.map_append, List.map_append]) (by decide) ?_
  simp only [List.forall_mem_append, List.forall_mem_cons]
  exact ⟨⟨⟨⟨unambiguous_natural _, unambiguous_optionalField⟩, unambiguous_optionalField⟩,
    unambiguous_optionalField⟩, unambiguous_text _, nofun⟩

theorem Summary.unambiguous (s : Summary) : s.document.reading.Unambiguous := by
  have hthroughput : ((s.throughput.map fun t => ("throughput", t.document)).toList.map
      (·.1)).Sublist ["throughput"] := by
    cases s.throughput <;> simp
  have hprofiler : ((s.profiler.map fun p => ("profiler", p.document)).toList.map
      (·.1)).Sublist ["profiler"] := by
    cases s.profiler <;> simp
  have hsub := ((List.Sublist.refl ["status"]).append hthroughput).append hprofiler
  rw [document]
  refine unambiguous_object ["status", "throughput", "profiler"] (by rwa [List.map_append])
    (by decide) ?_
  simp only [List.forall_mem_append, List.forall_mem_cons]
  refine ⟨⟨unambiguous_text _, fun field hfield => ?_⟩, fun field hfield => ?_⟩
  · obtain ⟨t, -, rfl⟩ := by simpa using hfield
    exact t.unambiguous
  · obtain ⟨p, -, rfl⟩ := by simpa using hfield
    exact p.unambiguous

theorem Record.unambiguous (r : Record) : r.document.reading.Unambiguous := by
  rw [document]
  refine unambiguous_object ["label", "captured_at", "elapsed_secs", "line_count", "interrupted",
    "summary"] (List.Sublist.refl _) (by decide) ?_
  simp only [List.forall_mem_cons]
  exact ⟨unambiguous_text _, unambiguous_text _, unambiguous_real _, unambiguous_natural _,
    .boolean _, r.summary.unambiguous, nofun⟩

/-! ## What a reading tells of a record -/

/-- A reading tells all of a record: its texts, counts and choices exactly, each of its numbers by
the text that it was written with, and that a figure is absent by the absence of its name. -/
structure Record.ToldBy (r : Record) (d : Reading) : Prop where
  label : d.at? ["label"] = some (.text r.label.toList)
  capturedAt : d.at? ["captured_at"] = some (.text r.capturedAt.toList)
  elapsed : d.at? ["elapsed_secs"] = some (Value.real r.elapsed).reading
  lineCount : ∀ n, d.at? ["line_count"] = some (.number (digits n)) ↔ r.lineCount = n
  stopped : d.at? ["interrupted"] = some (.boolean r.stopped)
  status : ∀ s : Status, d.at? ["summary", "status"] = some (.text s.label.toList) ↔
    r.summary.status = s
  throughput : (d.at? ["summary", "throughput"]).isSome = r.summary.throughput.isSome
  samples : d.at? ["summary", "throughput", "count"] =
    r.summary.throughput.map fun t => .number (digits t.count)
  mean : d.at? ["summary", "throughput", "mean"] =
    r.summary.throughput.map fun t => (Value.real t.mean).reading
  min : d.at? ["summary", "throughput", "min"] =
    r.summary.throughput.map fun t => (Value.real t.min).reading
  max : d.at? ["summary", "throughput", "max"] =
    r.summary.throughput.map fun t => (Value.real t.max).reading
  stdev : d.at? ["summary", "throughput", "stdev"] =
    (r.summary.throughput.bind (·.stdev)).map fun x => (Value.real x).reading
  profiler : (d.at? ["summary", "profiler"]).isSome = r.summary.profiler.isSome
  blocks : d.at? ["summary", "profiler", "count"] =
    r.summary.profiler.map fun p => .number (digits p.count)
  cycles : d.at? ["summary", "profiler", "cycles_avg"] =
    (r.summary.profiler.bind (·.cycles)).map fun x => (Value.real x).reading
  execPercent : d.at? ["summary", "profiler", "exec_pct_avg"] =
    (r.summary.profiler.bind (·.execPercent)).map fun x => (Value.real x).reading
  bandwidth : d.at? ["summary", "profiler", "bandwidth_avg_kbps"] =
    (r.summary.profiler.bind (·.bandwidth)).map fun x => (Value.real x).reading
  bottleneck : ∀ b : Bottleneck,
    d.at? ["summary", "profiler", "bottleneck"] = some (.text b.label.toList) ↔
      r.summary.profiler.map (·.bottleneck) = some b

theorem digits_inj {n n' : Nat} : digits n = digits n' ↔ n = n' := by
  refine ⟨fun h => ?_, congrArg digits⟩
  rw [← value_digits n, h, value_digits]

theorem Profiler.Bottleneck.label_inj {b b' : Bottleneck} :
    b.label.toList = b'.label.toList ↔ b = b' := by
  cases b <;> cases b' <;> decide

theorem Summary.at?_throughput (s : Summary) (names : List String) :
    s.document.reading.at? ("throughput" :: names) =
      s.throughput.bind fun t => t.document.reading.at? names := by
  obtain ⟨status, throughput, profiler⟩ := s
  cases throughput with
  | some t => rfl
  | none => cases profiler <;> rfl

theorem Summary.at?_profiler (s : Summary) (names : List String) :
    s.document.reading.at? ("profiler" :: names) =
      s.profiler.bind fun p => p.document.reading.at? names := by
  obtain ⟨status, throughput, profiler⟩ := s
  cases throughput <;> cases profiler <;> rfl

theorem ThroughputFigures.at?_stdev (t : ThroughputFigures) : t.document.reading.at? ["stdev"] =
    t.stdev.map fun x => (Value.real x).reading := by
  obtain ⟨count, mean, min, max, stdev⟩ := t
  cases stdev <;> rfl

section profiler

variable (p : ProfilerFigures)

theorem ProfilerFigures.at?_cycles : p.document.reading.at? ["cycles_avg"] =
    p.cycles.map fun x => (Value.real x).reading := by
  obtain ⟨count, cycles, execPercent, bandwidth, bottleneck⟩ := p
  cases cycles <;> cases execPercent <;> cases bandwidth <;> rfl

theorem ProfilerFigures.at?_execPercent : p.document.reading.at? ["exec_pct_avg"] =
    p.execPercent.map fun x => (Value.real x).reading := by
  obtain ⟨count, cycles, execPercent, bandwidth, bottleneck⟩ := p
  cases cycles <;> cases execPercent <;> cases bandwidth <;> rfl

theorem ProfilerFigures.at?_bandwidth : p.document.reading.at? ["bandwidth_avg_kbps"] =
    p.bandwidth.map fun x => (Value.real x).reading := by
  obtain ⟨count, cycles, execPercent, bandwidth, bottleneck⟩ := p
  cases cycles <;> cases execPercent <;> cases bandwidth <;> rfl

theorem ProfilerFigures.at?_bottleneck : p.document.reading.at? ["bottleneck"] =
    some (.text p.bottleneck.label.toList) := by
  obtain ⟨count, cycles, execPercent, bandwidth, bottleneck⟩ := p
  cases cycles <;> cases execPercent <;> cases bandwidth <;> rfl

end profiler

theorem Record.toldBy_reading (r : Record) : r.ToldBy r.document.reading := by
  have hthroughput (names : List String) :
      r.document.reading.at? ("summary" :: "throughput" :: names) =
        r.summary.throughput.bind fun t => t.document.reading.at? names :=
    r.summary.at?_throughput names
  have hprofiler (names : List String) :
      r.document.reading.at? ("summary" :: "profiler" :: names) =
        r.summary.profiler.bind fun p => p.document.reading.at? names :=
    r.summary.at?_profiler names
  refine { label := rfl, capturedAt := rfl, elapsed := rfl, lineCount := fun n => ?_, stopped := rfl,
           status := fun s => ?_, throughput := ?_, samples := ?_, mean := ?_, min := ?_, max := ?_,
           stdev := ?_, profiler := ?_, blocks := ?_, cycles := ?_, execPercent := ?_,
           bandwidth := ?_, bottleneck := fun b => ?_ }
  · have hcount : r.document.reading.at? ["line_count"] = some (.number (digits r.lineCount)) := rfl
    rw [hcount, Option.some.injEq, Reading.number.injEq, digits_inj]
  · have hstatus : r.document.reading.at? ["summary", "status"] =
      some (.text r.summary.status.label.toList) := rfl
    rw [hstatus, Option.some.injEq, Reading.text.injEq, Status.label_inj]
  · rw [hthroughput]
    cases r.summary.throughput <;> rfl
  · rw [hthroughput]
    cases r.summary.throughput <;> rfl
  · rw [hthroughput]
    cases r.summary.throughput <;> rfl
  · rw [hthroughput]
    cases r.summary.throughput <;> rfl
  · rw [hthroughput]
    cases r.summary.throughput <;> rfl
  · simp only [hthroughput, ThroughputFigures.at?_stdev, Option.map_bind]
    rfl
  · rw [hprofiler]
    cases r.summary.profiler <;> rfl
  · rw [hprofiler]
    cases r.summary.profiler <;> rfl
  · simp only [hprofiler, ProfilerFigures.at?_cycles, Option.map_bind]
    rfl
  · simp only [hprofiler, ProfilerFigures.at?_execPercent, Option.map_bind]
    rfl
  · simp only [hprofiler, ProfilerFigures.at?_bandwidth, Option.map_bind]
    rfl
  · simp only [hprofiler, ProfilerFigures.at?_bottleneck]
    cases r.summary.profiler with
    | none => simp
    | some p => simp only [Option.bind_some, Option.map_some, Option.some.injEq,
        Reading.text.injEq, Bottleneck.label_inj]

/-! ## The file of a record -/

section keep

variable {r : Record} {p : Path} {t : Tree} {here : Location} {name : Name}

theorem Record.keep_of_names (h : t.Names p here name) (hlong : Tree.isTooLong name = false)
    (hfile : ∀ e, t.get? (here ++ [name]) = some e → ∃ old, e = .file old) :
    r.keep p t = .ok () (t.put (here ++ [name]) (.file r.content)) := by
  have hready := Filing.makeReady_of_names h (h.isDirectory_of_file hfile)
  refine (bind_of_ok hready _).trans ?_
  simp only [h.replace_of_file r.content hlong hfile]

end keep

/-- **The file of a record is one document, which tells all of the record.** The document depends on
the record only and has one reading, in which no name stands twice. Wherever a record was kept, the
file holds this document and nothing else, unless a device took it; and it is kept wherever a path
names a file, whatever that holds, or a free name in a directory that opens. -/
theorem Record.keep_document (r : Record) : ∃ text d,
    IsDocument text d ∧ (∀ d', IsDocument text d' → d' = d) ∧ d.Unambiguous ∧ r.ToldBy d ∧
    (∀ p t t', r.keep p t = .ok () t' → ∃ place, t'.locate p = .ok place ∧
      (t'.get? place = some (.file (Utf8.encode text)) ∨
        t.get? place = some .sink ∧ t'.get? place = some .sink)) ∧
    ∀ (p : Path) (t : Tree) here name, t.Names p here name → Tree.isTooLong name = false →
      (∀ e, t.get? (here ++ [name]) = some e → ∃ old, e = .file old) →
      r.keep p t = .ok () (t.put (here ++ [name]) (.file (Utf8.encode text))) := by
  have hdocument := isDocument_print r.document
  refine ⟨r.document.print, r.document.reading, hdocument, fun d' hd' => hd'.unique hdocument,
    r.unambiguous, r.toldBy_reading, fun p t t' h => ?_, fun p t here name => keep_of_names⟩
  obtain ⟨place, hleads, -, hstands⟩ := keep_eq_ok h
  exact ⟨place, hleads, hstands⟩

theorem Record.keep_document_escaped : ∃ text d t',
    IsDocument text d ∧ d.at? ["label"] = some (.text ['a', '"', '\\', '\n', '\x01', '𝄞']) ∧
    Record.keep ⟨"a\"\\\n\x01𝄞", "", 0, 1, false, ⟨.error, none, none⟩⟩ ⟨["r".toList]⟩
      ⟨[(["r".toList], .file [1, 2, 3])], []⟩ = .ok () t' ∧
    t'.get? ["r".toList] = some (.file (Utf8.encode text)) := by
  obtain ⟨text, d, hdocument, -, -, htold, -, hkept⟩ :=
    keep_document ⟨"a\"\\\n\x01𝄞", "", 0, 1, false, ⟨.error, none, none⟩⟩
  have hnames : Tree.Names ⟨[(["r".toList], .file [1, 2, 3])], []⟩ ⟨["r".toList]⟩ [] "r".toList :=
    ⟨by decide +kernel, by decide, rfl, [], rfl, rfl⟩
  refine ⟨text, d, _, hdocument, htold.label, hkept _ _ [] "r".toList hnames (by decide +kernel) ?_,
    Tree.get?_put_self (List.cons_ne_nil _ _) _⟩
  intro e he
  exact ⟨_, (Option.some.inj he).symm⟩

end BenchLedger
