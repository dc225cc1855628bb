import BenchLedger.Proofs.Ledger.Lines

/-!
# The cells of a ledger row, read back

A row is split at its bars (`pieces`), but not at a bar behind a backslash. Every bar in a label is
written behind one, and a backslash at the end of a label never stands right before the bar that
ends its cell, because a blank comes between: so the row falls into its nine cells, and the label
can be told from its cell, whatever characters it holds. Main statement: `row_pieces`.
-/

namespace BenchLedger.Ledger

open Decimal

/-! ## Splitting at bars -/

/-- The pieces of a text between the bars that no backslash stands right before; `escaped` says
whether one stands right before the text. -/
def piecesFrom (escaped : Bool) : List Char → List (List Char)
  | [] => [[]]
  | c :: cs =>
    if c = '|' ∧ escaped = false then [] :: piecesFrom false cs
    else (piecesFrom (c == '\\') cs).modifyHead (c :: ·)

def pieces (text : List Char) : List (List Char) := piecesFrom false text

/-- A text with a bar in place of each backslash and the bar right after it. -/
def unescapeBars : List Char → List Char
  | '\\' :: '|' :: cs => '|' :: unescapeBars cs
  | c :: cs => c :: unescapeBars cs
  | [] => []

/-- A text between two blanks. -/
def spaced (cell : List Char) : List Char := ' ' :: cell ++ [' ']

/-- An escaped text ends where a blank and a bar follow, even if a backslash ends it. -/
theorem piecesFrom_escapeBars (escaped : Bool) (cs rest : List Char) :
    piecesFrom escaped (escapeBars cs ++ ' ' :: '|' :: rest) =
      (escapeBars cs ++ [' ']) :: piecesFrom false rest := by
  induction cs generalizing escaped with
  | nil => simp [escapeBars, piecesFrom]
  | cons c cs ih =>
    rw [escapeBars_cons]
    by_cases hbar : c = '|'
    · simp [hbar, piecesFrom, ih]
    · simp [hbar, piecesFrom, ih]

theorem piecesFrom_cells (texts : List (List Char)) :
    piecesFrom false ((texts.map escapeBars).flatMap framed ++ ['\n']) =
      (texts.map escapeBars).map spaced ++ [['\n']] := by
  induction texts with
  | nil => rfl
  | cons text texts ih =>
    have hsplit : ((text :: texts).map escapeBars).flatMap framed ++ ['\n'] =
        ' ' :: (escapeBars text ++ ' ' :: '|' ::
          ((texts.map escapeBars).flatMap framed ++ ['\n'])) := by
      simp [framed]
    rw [hsplit, piecesFrom, if_neg (by decide), piecesFrom_escapeBars, ih]
    rfl

theorem escapeBars_of_notMem {cs : List Char} (h : '|' ∉ cs) : escapeBars cs = cs := by
  induction cs with
  | nil => rfl
  | cons c cs ih =>
    rw [List.mem_cons, not_or] at h
    rw [escapeBars_cons, if_neg (Ne.symm h.1), ih h.2]
    rfl

theorem escapeBars_of_plain {cs : List Char} (h : Plain cs) : escapeBars cs = cs :=
  escapeBars_of_notMem fun hbar => absurd (h _ hbar) (by decide)

/-- Nine cells, each between two blanks: the bars of a row that count are the ten around them. -/
theorem pieces_row (s : Summary) (label : String) (time : Moment) :
    pieces (row s label time) = [] :: (cells s label time).map spaced ++ [['\n']] := by
  have hfigures : (figureCells s).map escapeBars = figureCells s :=
    (List.map_congr_left fun cell hcell =>
      escapeBars_of_plain (plain_figureCells s cell hcell)).trans (List.map_id _)
  have hcells : cells s label time = ([time.rowStamp, label.toList] ++ figureCells s ++
      [s.status.label.toList]).map escapeBars := by
    simp only [cells, List.map_append, List.map_cons, List.map_nil, hfigures,
      escapeBars_of_plain (plain_rowStamp time), escapeBars_of_plain (plain_status s.status)]
  have hrow : row s label time = '|' :: ((cells s label time).flatMap framed ++ ['\n']) :=
    row_eq s label time
  rw [hrow, pieces, piecesFrom, if_pos ⟨rfl, rfl⟩, hcells, piecesFrom_cells]
  rfl

/-! ## Labels -/

theorem escapeBars_ne_bar (cs rest : List Char) : escapeBars cs ≠ '|' :: rest := by
  cases cs with
  | nil => nofun
  | cons c cs =>
    rw [escapeBars_cons]
    split_ifs with hbar
    · nofun
    · exact fun h => hbar (List.cons.inj h).1

theorem unescapeBars_cons {c : Char} {cs : List Char} (h : ∀ rest, cs ≠ '|' :: rest) :
    unescapeBars (c :: cs) = c :: unescapeBars cs := by
  rw [unescapeBars]
  rintro rest rfl rfl
  exact h rest rfl

/-- No backslash of the text itself is taken for one of those that were added. -/
theorem unescapeBars_escapeBars (cs : List Char) : unescapeBars (escapeBars cs) = cs := by
  induction cs with
  | nil => rfl
  | cons c cs ih =>
    rw [escapeBars_cons]
    split_ifs with hbar
    · rw [hbar]
      exact congrArg _ ih
    · rw [List.singleton_append, unescapeBars_cons (escapeBars_ne_bar cs), ih]

theorem escapeBars_injective : Function.Injective escapeBars :=
  Function.LeftInverse.injective unescapeBars_escapeBars

theorem spaced_injective : Function.Injective spaced := by
  intro xs ys h
  exact List.append_cancel_right (List.cons.inj h).2

theorem label_eq_of_row_eq {s s' : Summary} {label label' : String} {time time' : Moment}
    (h : row s label time = row s' label' time') : label = label' := by
  have hpieces := congrArg (fun text => (pieces text)[2]?) h
  simp only [pieces_row] at hpieces
  have hcells : spaced (escapeBars label.toList) = spaced (escapeBars label'.toList) :=
    Option.some.inj hpieces
  exact String.toList_inj.1 (escapeBars_injective (spaced_injective hcells))

/-! ## Figures -/

theorem slash_notMem_fixedPlaces (places : Nat) (x : Float) : '/' ∉ fixedPlaces places x := by
  intro h
  rcases mem_fixedPlaces h with hdigit | hsign
  · exact absurd hdigit (by decide)
  · exact absurd hsign (by decide)

/-- A cell says that a figure is absent only if it is: a text that is none of its own would have to
hold a slash and no blank. -/
theorem orAbsent_eq_iff {α : Type} {figure : Option α} {text : α → List Char}
    (h : ∀ a, '/' ∈ text a → ' ' ∈ text a) :
    orAbsent (figure.map text) = "N/A".toList ↔ figure = none := by
  cases figure with
  | none => exact ⟨fun _ => rfl, fun _ => rfl⟩
  | some a =>
    have hne : text a ≠ "N/A".toList := by
      intro heq
      have hblank := h a (heq ▸ by decide)
      rw [heq] at hblank
      exact absurd hblank (by decide)
    exact ⟨fun heq => absurd heq hne, nofun⟩

/-- **The cells of a row can be read back.** A row is split at each bar that no backslash stands
right before into eleven pieces: nothing, nine cells between two blanks, and the line feed. The
second cell is the label again, once every backslash and bar in it is a bar, so rows with different
labels are different. Each of the six cells of the figures says that a figure is absent exactly if
the summary lacks it. -/
theorem row_pieces (s : Summary) (label : String) (time : Moment) :
    ∃ stamp labelCell mean range cycles exec bandwidth bottleneck status,
      pieces (row s label time) = [] :: [stamp, labelCell, mean, range, cycles, exec, bandwidth,
        bottleneck, status].map spaced ++ [['\n']] ∧
      unescapeBars labelCell = label.toList ∧
      (∀ s' label' time', label ≠ label' → row s label time ≠ row s' label' time') ∧
      stamp = time.rowStamp ∧ status = s.status.label.toList ∧
      (mean = "N/A".toList ↔ s.throughput = none) ∧
      (range = "N/A".toList ↔ s.throughput = none) ∧
      (cycles = "N/A".toList ↔ s.profiler.bind (·.cycles) = none) ∧
      (exec = "N/A".toList ↔ s.profiler.bind (·.execPercent) = none) ∧
      (bandwidth = "N/A".toList ↔ s.profiler.bind (·.bandwidth) = none) ∧
      (bottleneck = "N/A".toList ↔ s.profiler = none) := by
  refine ⟨_, _, _, _, _, _, _, _, _, pieces_row s label time, unescapeBars_escapeBars _,
    fun s' label' time' hne => mt label_eq_of_row_eq hne, rfl, rfl, ?_, ?_, ?_, ?_, ?_, ?_⟩
  · exact orAbsent_eq_iff fun t h => absurd h (slash_notMem_fixedPlaces 2 t.mean)
  · refine orAbsent_eq_iff fun t h => ?_
    rcases List.mem_append.1 h with h | h
    · exact absurd h (slash_notMem_fixedPlaces 2 t.min)
    · exact absurd ((List.mem_cons.1 h).resolve_left (by decide)) (slash_notMem_fixedPlaces 2 t.max)
  · exact orAbsent_eq_iff fun x h => absurd h (slash_notMem_fixedPlaces 0 x)
  · refine orAbsent_eq_iff fun x h => ?_
    rcases List.mem_append.1 h with h | h
    · exact absurd h (slash_notMem_fixedPlaces 0 x)
    · exact absurd h (by decide)
  · exact orAbsent_eq_iff fun x h => List.mem_append_right _ (by decide)
  · have hslash (b : Profiler.Bottleneck) : '/' ∉ b.label.toList := by cases b <;> decide
    exact orAbsent_eq_iff fun p h => absurd h (hslash p.bottleneck)

/-- A bar, and a bar that has a backslash of its own in front as if it were escaped already. -/
theorem row_pieces_bars : "|" ≠ "\\|" ∧
    row ⟨.unknown, none, none⟩ "|" ⟨⟨2026, 10, 16⟩, 0, 0⟩ ≠
      row ⟨.unknown, none, none⟩ "\\|" ⟨⟨2026, 10, 16⟩, 0, 0⟩ := by
  have hne : "|" ≠ "\\|" := by decide
  obtain ⟨_, _, _, _, _, _, _, _, _, -, -, hother, -⟩ :=
    row_pieces ⟨.unknown, none, none⟩ "|" ⟨⟨2026, 10, 16⟩, 0, 0⟩
  exact ⟨hne, hother _ _ _ hne⟩

/-- A backslash at the end of a label does not escape the bar behind its cell. -/
example : (pieces (row ⟨.unknown, none, none⟩ "a\\" ⟨⟨2026, 10, 16⟩, 0, 0⟩))[2]? =
    some " a\\ ".toList := by decide +kernel

end BenchLedger.Ledger
