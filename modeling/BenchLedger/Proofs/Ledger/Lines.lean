import BenchLedger.Ledger.Row
import BenchLedger.Session.Request
import Mathlib.Tactic.Common

/-!
# The lines of a ledger row

All cells of a row but the label are written in plain characters (`plain_figureCells`), so the line
breaks within a row are those of its label: `row_lineBreaks`. Bars in a label are escaped, line
breaks are not, and a request is rejected for a blank label only. A label with a line break
therefore breaks its row.
-/

namespace BenchLedger

open Decimal

/-- Whether a character ends a line. -/
def isLineBreak (c : Char) : Bool := c == '\n' || c == '\r'

/-- Neither a line break nor one of the two characters that a table gives a meaning. -/
def isPlain (c : Char) : Bool := !isLineBreak c && c != '|' && c != '\\'

def Plain (cs : List Char) : Prop := ∀ c ∈ cs, isPlain c = true

instance (cs : List Char) : Decidable (Plain cs) :=
  decidable_of_iff (cs.all isPlain = true) List.all_eq_true

/-! ## Plain texts -/

@[simp]
theorem plain_cons {c : Char} {cs : List Char} : Plain (c :: cs) ↔ isPlain c = true ∧ Plain cs :=
  List.forall_mem_cons

@[simp]
theorem plain_append {xs ys : List Char} : Plain (xs ++ ys) ↔ Plain xs ∧ Plain ys :=
  List.forall_mem_append

theorem Plain.noBreaks {cs : List Char} (h : Plain cs) : cs.filter isLineBreak = [] := by
  rw [List.filter_eq_nil_iff]
  intro c hc hbreak
  have hplain := h c hc
  rw [isPlain, hbreak] at hplain
  cases hplain

theorem isPlain_of_isDigit {c : Char} (h : c.isDigit = true) : isPlain c = true := by
  have hne {d : Char} (hd : d.isDigit = false) : c ≠ d := by
    rintro rfl
    rw [h] at hd
    cases hd
  simp only [isPlain, isLineBreak, Bool.and_eq_true, Bool.not_eq_true', Bool.or_eq_false_iff,
    beq_eq_false_iff_ne, bne_iff_ne]
  exact ⟨⟨⟨hne rfl, hne rfl⟩, hne rfl⟩, hne rfl⟩

theorem plain_padded (width n : Nat) : Plain (padded width n) :=
  fun _ hc => isPlain_of_isDigit (isDigit_of_mem_padded hc)

theorem mem_placePoint {places units : Nat} {c : Char} (h : c ∈ placePoint places units) :
    c.isDigit = true ∨ c = '.' := by
  unfold placePoint at h
  dsimp only at h
  split_ifs at h
  · exact .inl (isDigit_of_mem_padded (List.mem_of_mem_take h))
  · rcases List.mem_append.1 h with h | h
    · exact .inl (isDigit_of_mem_padded (List.mem_of_mem_take h))
    · rcases List.mem_cons.1 h with rfl | h
      · exact .inr rfl
      · exact .inl (isDigit_of_mem_padded (List.mem_of_mem_drop h))

theorem mem_fixedPlaces {places : Nat} {x : Float} {c : Char} (h : c ∈ fixedPlaces places x) :
    c.isDigit = true ∨ c ∈ "-.NaNinf".toList := by
  have hpoint {units : Nat} (h : c ∈ placePoint places units) :
      c.isDigit = true ∨ c ∈ "-.NaNinf".toList := by
    rcases mem_placePoint h with h | rfl
    · exact .inl h
    · exact .inr (by decide)
  unfold fixedPlaces at h
  cases hx : Binary64.ofFloat x with
  | nan =>
    simp only [hx] at h
    exact .inr ((by decide : "NaN".toList ⊆ "-.NaNinf".toList) h)
  | infinite negative =>
    simp only [hx] at h
    have hsub : (if negative then "-inf" else "inf").toList ⊆ "-.NaNinf".toList := by
      cases negative <;> decide
    exact .inr (hsub h)
  | finite negative m e =>
    simp only [hx] at h
    cases negative with
    | false => exact hpoint h
    | true =>
      rcases List.mem_cons.1 h with rfl | h
      · exact .inr (by decide)
      · exact hpoint h

theorem plain_fixedPlaces (places : Nat) (x : Float) : Plain (fixedPlaces places x) := by
  have hsigns : Plain "-.NaNinf".toList := by decide
  intro c hc
  rcases mem_fixedPlaces hc with hdigit | hsign
  · exact isPlain_of_isDigit hdigit
  · exact hsigns c hsign

theorem plain_rowStamp (time : Moment) : Plain time.rowStamp := by
  have hyear : Plain (Moment.yearText time.date.year) := by
    intro c hc
    rcases Moment.mem_yearText hc with hdigit | rfl | rfl
    · exact isPlain_of_isDigit hdigit
    · rfl
    · rfl
  have hhyphen : isPlain '-' = true := rfl
  have hcolon : isPlain ':' = true := rfl
  have hblank : isPlain ' ' = true := rfl
  simp only [Moment.rowStamp, Moment.dayText, Moment.clockText, plain_append, plain_cons, hyear,
    plain_padded, hhyphen, hcolon, hblank, and_self]

namespace Ledger

theorem plain_orAbsent {α : Type} (figure : Option α) {text : α → List Char}
    (h : ∀ a, Plain (text a)) : Plain (orAbsent (figure.map text)) := by
  have habsent : Plain "N/A".toList := by decide
  cases figure with
  | none => exact habsent
  | some a => exact h a

theorem plain_figureCells (s : Summary) : ∀ cell ∈ figureCells s, Plain cell := by
  have hpercent : Plain ['%'] := by decide
  have hunit : Plain " KB/s".toList := by decide
  have hbottleneck (b : Profiler.Bottleneck) : Plain b.label.toList := by cases b <;> decide
  simp only [figureCells, List.forall_mem_cons, List.not_mem_nil, false_implies, implies_true,
    and_true]
  refine ⟨?_, ?_, ?_, ?_, ?_, ?_⟩
  · exact plain_orAbsent _ fun t => plain_fixedPlaces 2 t.mean
  · exact plain_orAbsent _ fun t =>
      plain_append.2 ⟨plain_fixedPlaces 2 t.min, plain_cons.2 ⟨rfl, plain_fixedPlaces 2 t.max⟩⟩
  · exact plain_orAbsent _ fun x => plain_fixedPlaces 0 x
  · exact plain_orAbsent _ fun x => plain_append.2 ⟨plain_fixedPlaces 0 x, hpercent⟩
  · exact plain_orAbsent _ fun x => plain_append.2 ⟨plain_fixedPlaces 0 x, hunit⟩
  · exact plain_orAbsent _ fun p => hbottleneck p.bottleneck

theorem plain_status (status : Status) : Plain status.label.toList := by
  cases status <;> decide

/-! ## Line breaks -/

theorem filter_isLineBreak_escapeBars (cs : List Char) :
    (escapeBars cs).filter isLineBreak = cs.filter isLineBreak := by
  induction cs with
  | nil => rfl
  | cons c cs ih =>
    rw [escapeBars_cons, List.filter_append, ih]
    by_cases hbar : c = '|'
    · subst hbar
      rfl
    · rw [if_neg hbar, ← List.filter_append, List.singleton_append]

/-- What a cell adds to a row: it stands between two blanks and before a bar. -/
def framed (cell : List Char) : List Char := ' ' :: cell ++ [' ', '|']

theorem filter_isLineBreak_framed (cell : List Char) :
    (framed cell).filter isLineBreak = cell.filter isLineBreak := by
  have hblank : isLineBreak ' ' = false := rfl
  have hend : [' ', '|'].filter isLineBreak = [] := rfl
  rw [framed, List.filter_append, hend, List.append_nil, List.filter_cons_of_neg (by simp [hblank])]

/-- A row without the line feed at its end. -/
def rowLine (s : Summary) (label : String) (time : Moment) : List Char :=
  '|' :: (cells s label time).flatMap framed

theorem row_eq (s : Summary) (label : String) (time : Moment) :
    row s label time = rowLine s label time ++ ['\n'] := rfl

theorem filter_isLineBreak_rowLine (s : Summary) (label : String) (time : Moment) :
    (rowLine s label time).filter isLineBreak = label.toList.filter isLineBreak := by
  have hfigures : (figureCells s).flatMap (fun cell => cell.filter isLineBreak) = [] :=
    List.flatMap_eq_nil_iff.2 fun cell hcell => (plain_figureCells s cell hcell).noBreaks
  rw [rowLine, List.filter_cons_of_neg (by decide), List.filter_flatMap]
  simp only [filter_isLineBreak_framed, cells, List.flatMap_append, List.flatMap_cons,
    List.flatMap_nil, hfigures, filter_isLineBreak_escapeBars, (plain_rowStamp time).noBreaks,
    (plain_status s.status).noBreaks, List.append_nil, List.nil_append]

/-- **The line breaks of a row are those of its label**, in order, and then the line feed at its
end. So a row is one line exactly if its label has no line break. -/
theorem row_lineBreaks (s : Summary) (label : String) (time : Moment) : ∃ front,
    row s label time = front ++ ['\n'] ∧
    front.filter isLineBreak = label.toList.filter isLineBreak ∧
    ((∀ c ∈ front, isLineBreak c = false) ↔ ∀ c ∈ label.toList, isLineBreak c = false) := by
  have hbreaks := filter_isLineBreak_rowLine s label time
  refine ⟨rowLine s label time, row_eq s label time, hbreaks, ?_⟩
  have hnone (cs : List Char) : (∀ c ∈ cs, isLineBreak c = false) ↔ cs.filter isLineBreak = [] := by
    simp [List.filter_eq_nil_iff]
  rw [hnone, hnone, hbreaks]

/-- A label of two lines is accepted, and its row is broken in two. -/
theorem row_lineBreaks_twoLines :
    ({ label := "a\nb" } : Request).rejection? = none ∧
    ∃ front back, row ⟨.unknown, none, none⟩ "a\nb" ⟨⟨2026, 10, 16⟩, 0, 0⟩ = front ++ '\n' :: back ∧
      back ≠ [] := by
  refine ⟨by decide +kernel, "| 2026-10-16 00:00 | a".toList,
    "b | N/A | N/A | N/A | N/A | N/A | N/A | Unknown |\n".toList, by decide +kernel, by decide⟩

end Ledger

end BenchLedger
