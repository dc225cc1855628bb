import BenchLedger.Text.Pattern
import Mathlib.Data.List.TakeWhile

/-!
# What a pattern reads

`Reads p runs text` says that the pieces of a pattern put a text together, where every run may be
any run of its characters. If no run of a pattern can go on into what follows it (`isSeparated`),
nothing is lost by taking each run whole: the texts in which `find?` finds something are those with
such a text somewhere in them (`isSome_find?_iff`), and it finds the leftmost (`find?_eq_some_iff`).
-/

namespace BenchLedger.Text

/-! ## Runs -/

/-- The text does not start with a character of a class. -/
def Stops (belongs : Char → Bool) (cs : List Char) : Prop := ∀ c ∈ cs.head?, belongs c = false

def IsBlanks (cs : List Char) : Prop := ∀ c ∈ cs, isBlank c = true

def IsDigits (cs : List Char) : Prop := cs ≠ [] ∧ ∀ c ∈ cs, c.isDigit = true

/-- One or more digits, perhaps a point and perhaps more digits. -/
inductive IsDecimal : List Char → Prop
  | whole {ds : List Char} (hds : IsDigits ds) : IsDecimal ds
  | pointed {ds fs : List Char} (hds : IsDigits ds) (hfs : ∀ c ∈ fs, c.isDigit = true) :
      IsDecimal (ds ++ '.' :: fs)

section runs

variable {belongs : Char → Bool} {xs cs run rest : List Char}

theorem Stops.takeWhile (h : Stops belongs cs) : cs.takeWhile belongs = [] := by
  cases cs with
  | nil => rfl
  | cons c cs => rw [List.takeWhile_cons_of_neg (by simp [h c rfl])]

theorem Stops.dropWhile (h : Stops belongs cs) : cs.dropWhile belongs = cs := by
  cases cs with
  | nil => rfl
  | cons c cs => rw [List.dropWhile_cons_of_neg (by simp [h c rfl])]

theorem stops_dropWhile (belongs : Char → Bool) (cs : List Char) :
    Stops belongs (cs.dropWhile belongs) := by
  intro c hc
  have h := List.head?_dropWhile_not belongs cs
  rw [Option.mem_def.1 hc] at h
  exact h

theorem stops_false (cs : List Char) : Stops (fun _ => false) cs := fun _ _ => rfl

theorem takeWhile_append_of_stops (hxs : ∀ c ∈ xs, belongs c = true) (h : Stops belongs cs) :
    (xs ++ cs).takeWhile belongs = xs := by
  rw [List.takeWhile_append_of_pos hxs, h.takeWhile, List.append_nil]

theorem dropWhile_append_of_stops (hxs : ∀ c ∈ xs, belongs c = true) (h : Stops belongs cs) :
    (xs ++ cs).dropWhile belongs = cs := by
  rw [List.dropWhile_append_of_pos hxs, h.dropWhile]

theorem isDigit_eq_false_of_isBlank {c : Char} (h : isBlank c = true) : c.isDigit = false := by
  by_contra hdigit
  simp only [isBlank, blankRanges, List.any_cons, List.any_nil, Bool.or_false, Bool.or_eq_true,
    Bool.and_eq_true, decide_eq_true_eq] at h
  simp only [Char.isDigit, Bool.not_eq_false, Bool.and_eq_true, decide_eq_true_eq, ge_iff_le,
    UInt32.le_iff_toNat_le] at hdigit
  have hcode : c.toNat = c.val.toNat := rfl
  have hlow : '0'.val.toNat = 48 := rfl
  have hhigh : '9'.val.toNat = 57 := rfl
  omega

namespace Pattern

theorem digits?_append (hrun : IsDigits run) (hrest : Stops Char.isDigit rest) :
    digits? (run ++ rest) = some (run, rest) := by
  rw [digits?, takeWhile_append_of_stops hrun.2 hrest, dropWhile_append_of_stops hrun.2 hrest]
  cases run with
  | nil => exact absurd rfl hrun.1
  | cons d ds => rfl

theorem isSome_digits?_append (hrun : IsDigits run) (rest : List Char) :
    (digits? (run ++ rest)).isSome := by
  rw [digits?, List.takeWhile_append_of_pos hrun.2]
  cases run with
  | nil => exact absurd rfl hrun.1
  | cons d ds => rfl

theorem digits?_eq_some (h : digits? cs = some (run, rest)) :
    cs = run ++ rest ∧ IsDigits run ∧ Stops Char.isDigit rest := by
  unfold digits? at h
  split at h
  · cases h
  · rename_i d ds htake
    simp only [Option.some.injEq, Prod.mk.injEq] at h
    obtain ⟨rfl, rfl⟩ := h
    refine ⟨?_, ⟨List.cons_ne_nil d ds, fun c hc => ?_⟩, stops_dropWhile _ _⟩
    · rw [← htake, List.takeWhile_append_dropWhile]
    · rw [← htake] at hc
      exact List.mem_takeWhile_imp hc

theorem decimal?_append (hrun : IsDecimal run)
    (hrest : Stops (fun c => c.isDigit || c == '.') rest) :
    decimal? (run ++ rest) = some (run, rest) := by
  have hdigit : Stops Char.isDigit rest := fun c hc => (Bool.or_eq_false_iff.1 (hrest c hc)).1
  cases hrun with
  | whole hds =>
    rw [decimal?, digits?_append hds hdigit]
    cases rest with
    | nil => rfl
    | cons c cs =>
      have hpoint : c ≠ '.' := by simpa using (Bool.or_eq_false_iff.1 (hrest c rfl)).2
      split
      · rename_i heq
        cases heq
      · rename_i heq
        simp only [Option.some.injEq, Prod.mk.injEq, List.cons.injEq] at heq
        exact absurd heq.2.1 hpoint
      · rename_i heq
        exact heq.symm
  | pointed hds hfs =>
    rename_i ds fs
    have hpoint : Stops Char.isDigit ('.' :: (fs ++ rest)) := by
      rintro c ⟨⟩
      rfl
    rw [decimal?, List.append_assoc, List.cons_append, digits?_append hds hpoint]
    simp only [takeWhile_append_of_stops hfs hdigit, dropWhile_append_of_stops hfs hdigit]

theorem decimal?_eq_some (h : decimal? cs = some (run, rest)) :
    cs = run ++ rest ∧ IsDecimal run := by
  unfold decimal? at h
  split at h
  · cases h
  · rename_i ds fs hdigits
    obtain ⟨hcs, hds, -⟩ := digits?_eq_some hdigits
    simp only [Option.some.injEq, Prod.mk.injEq] at h
    obtain ⟨rfl, rfl⟩ := h
    refine ⟨?_, .pointed hds fun c hc => List.mem_takeWhile_imp hc⟩
    rw [hcs, List.append_assoc, List.cons_append, List.takeWhile_append_dropWhile]
  · rename_i ds cs' hnot hdigits
    obtain ⟨hcs, hds, -⟩ := digits?_eq_some hdigits
    simp only [Option.some.injEq, Prod.mk.injEq] at h
    obtain ⟨rfl, rfl⟩ := h
    exact ⟨hcs, .whole hds⟩

end Pattern

end runs

/-! ## Readings -/

/-- Whether a character can belong to a run of the piece. -/
def Piece.takes : Piece → Char → Bool
  | .fixed _, _ => false
  | .blanks, c => isBlank c
  | .digits, c => c.isDigit
  | .decimal, c => c.isDigit || c == '.'

namespace Pattern

/-- The pieces of a pattern put the text together, with these captured runs. -/
inductive Reads : Pattern → List (List Char) → List Char → Prop
  | nil : Reads [] [] []
  | fixed {p : Pattern} {runs : List (List Char)} {text : List Char} (lead : String)
      (h : Reads p runs text) : Reads (.fixed lead :: p) runs (lead.toList ++ text)
  | blanks {p : Pattern} {runs : List (List Char)} {gap text : List Char} (hgap : IsBlanks gap)
      (h : Reads p runs text) : Reads (.blanks :: p) runs (gap ++ text)
  | digits {p : Pattern} {runs : List (List Char)} {run text : List Char} (hrun : IsDigits run)
      (h : Reads p runs text) : Reads (.digits :: p) (run :: runs) (run ++ text)
  | decimal {p : Pattern} {runs : List (List Char)} {run text : List Char} (hrun : IsDecimal run)
      (h : Reads p runs text) : Reads (.decimal :: p) (run :: runs) (run ++ text)

section inversion

variable {p : Pattern} {runs : List (List Char)} {text : List Char}

theorem reads_nil_iff : Reads [] runs text ↔ runs = [] ∧ text = [] := by
  constructor
  · rintro ⟨⟩
    exact ⟨rfl, rfl⟩
  · rintro ⟨rfl, rfl⟩
    exact .nil

theorem reads_fixed_iff {lead : String} : Reads (.fixed lead :: p) runs text ↔
    ∃ rest, Reads p runs rest ∧ text = lead.toList ++ rest := by
  constructor
  · rintro ⟨⟩
    exact ⟨_, ‹_›, rfl⟩
  · rintro ⟨rest, h, rfl⟩
    exact .fixed lead h

theorem reads_blanks_iff : Reads (.blanks :: p) runs text ↔
    ∃ gap rest, IsBlanks gap ∧ Reads p runs rest ∧ text = gap ++ rest := by
  constructor
  · rintro ⟨⟩
    exact ⟨_, _, ‹_›, ‹_›, rfl⟩
  · rintro ⟨gap, rest, hgap, h, rfl⟩
    exact .blanks hgap h

theorem reads_digits_iff : Reads (.digits :: p) runs text ↔
    ∃ run others rest, IsDigits run ∧ Reads p others rest ∧ runs = run :: others ∧
      text = run ++ rest := by
  constructor
  · rintro ⟨⟩
    exact ⟨_, _, _, ‹_›, ‹_›, rfl, rfl⟩
  · rintro ⟨run, others, rest, hrun, h, rfl, rfl⟩
    exact .digits hrun h

theorem reads_decimal_iff : Reads (.decimal :: p) runs text ↔
    ∃ run others rest, IsDecimal run ∧ Reads p others rest ∧ runs = run :: others ∧
      text = run ++ rest := by
  constructor
  · rintro ⟨⟩
    exact ⟨_, _, _, ‹_›, ‹_›, rfl, rfl⟩
  · rintro ⟨run, others, rest, hrun, h, rfl, rfl⟩
    exact .decimal hrun h

theorem Reads.field {gap run : List Char} (lead : String) (hgap : IsBlanks gap)
    (hrun : IsDigits run) (h : Reads p runs text) :
    Reads (.blanks :: .fixed lead :: .digits :: p) (run :: runs)
      (gap ++ (lead.toList ++ (run ++ text))) :=
  .blanks hgap (.fixed lead (.digits hrun h))

theorem reads_field_iff {lead : String} :
    Reads (.blanks :: .fixed lead :: .digits :: p) runs text ↔
      ∃ gap run others rest, IsBlanks gap ∧ IsDigits run ∧ Reads p others rest ∧
        runs = run :: others ∧ text = gap ++ (lead.toList ++ (run ++ rest)) := by
  constructor
  · intro h
    obtain ⟨gap, _, hgap, hname, rfl⟩ := reads_blanks_iff.1 h
    obtain ⟨_, hvalue, rfl⟩ := reads_fixed_iff.1 hname
    obtain ⟨run, others, rest, hrun, hrest, rfl, rfl⟩ := reads_digits_iff.1 hvalue
    exact ⟨gap, run, others, rest, hgap, hrun, hrest, rfl, rfl⟩
  · rintro ⟨gap, run, others, rest, hgap, hrun, h, rfl, rfl⟩
    exact .field lead hgap hrun h

end inversion

/-- Whether nothing that the pattern reads starts with a character of a run of the piece. -/
def isApart (piece : Piece) : Pattern → Bool
  | [] => false
  | .fixed lead :: _ => lead.toList.head?.any fun c => !piece.takes c
  | .blanks :: p => !piece.takes ' ' && isApart piece p
  | .digits :: _ | .decimal :: _ => !piece.takes '0'

/-- Whether no run of the pattern can go on into what the pieces after it read. A decimal at the end
is left out: it can be followed by another point. -/
def isSeparated : Pattern → Bool
  | [] => true
  | [piece] => !piece.takes '.'
  | piece :: next :: p => isApart piece (next :: p) && isSeparated (next :: p)

/-- The run that ends the pattern, if one does, cannot go on into the text. -/
def EndsBefore (p : Pattern) (after : List Char) : Prop := ∀ piece ∈ p.getLast?, Stops piece.takes after

variable {piece : Piece} {p : Pattern} {runs : List (List Char)} {text after cs : List Char}

theorem EndsBefore.tail (h : EndsBefore (piece :: p) after) : EndsBefore p after := by
  cases p with
  | nil => simp [EndsBefore]
  | cons next p =>
    intro last hlast
    exact h last (by rwa [List.getLast?_cons_cons])

theorem EndsBefore.cons (h : EndsBefore p after) (hpiece : p = [] → Stops piece.takes after) :
    EndsBefore (piece :: p) after := by
  cases p with
  | nil =>
    rintro last ⟨⟩
    exact hpiece rfl
  | cons next p =>
    intro last hlast
    exact h last (by rwa [List.getLast?_cons_cons] at hlast)

theorem isSeparated_tail (h : isSeparated (piece :: p) = true) : isSeparated p = true := by
  cases p with
  | nil => rfl
  | cons next p => exact (Bool.and_eq_true_iff.1 h).2

theorem takes_eq_false_of_isBlank {c : Char} (h : piece.takes ' ' = false) (hc : isBlank c = true) :
    piece.takes c = false := by
  have hdigit := isDigit_eq_false_of_isBlank hc
  cases piece with
  | fixed lead => rfl
  | blanks => cases h
  | digits => exact hdigit
  | decimal =>
    have hpoint : c ≠ '.' := by
      rintro rfl
      exact absurd hc (by decide)
    simp [Piece.takes, hdigit, hpoint]

theorem takes_eq_false_of_isDigit {c : Char} (h : piece.takes '0' = false)
    (hc : c.isDigit = true) : piece.takes c = false := by
  cases piece with
  | fixed lead => rfl
  | blanks =>
    by_contra hblank
    rw [Piece.takes, Bool.not_eq_false] at hblank
    rw [isDigit_eq_false_of_isBlank hblank] at hc
    cases hc
  | digits => cases h
  | decimal => cases h

theorem IsDigits.stops {run : List Char} (hrun : IsDigits run) (h : piece.takes '0' = false)
    (after : List Char) : Stops piece.takes (run ++ after) := by
  cases run with
  | nil => exact absurd rfl hrun.1
  | cons d ds =>
    rintro c ⟨⟩
    exact takes_eq_false_of_isDigit h (hrun.2 d List.mem_cons_self)

theorem IsDecimal.stops {run : List Char} (hrun : IsDecimal run) (h : piece.takes '0' = false)
    (after : List Char) : Stops piece.takes (run ++ after) := by
  cases hrun with
  | whole hds => exact IsDigits.stops hds h after
  | pointed hds hfs =>
    rw [List.append_assoc]
    exact IsDigits.stops hds h _

theorem Reads.stops (h : Reads p runs text) (hapart : isApart piece p = true) (after : List Char) :
    Stops piece.takes (text ++ after) := by
  induction h with
  | nil => cases hapart
  | fixed lead h ih =>
    rw [isApart] at hapart
    cases hlead : lead.toList with
    | nil => simp [hlead] at hapart
    | cons d ds =>
      rintro c ⟨⟩
      simpa [hlead] using hapart
  | blanks hgap h ih =>
    rename_i gap text
    rw [isApart, Bool.and_eq_true, Bool.not_eq_true'] at hapart
    cases gap with
    | nil => exact ih hapart.2
    | cons g gs =>
      rintro c ⟨⟩
      exact takes_eq_false_of_isBlank hapart.1 (hgap g List.mem_cons_self)
  | digits hrun h =>
    rw [isApart, Bool.not_eq_true'] at hapart
    rw [List.append_assoc]
    exact IsDigits.stops hrun hapart _
  | decimal hrun h =>
    rw [isApart, Bool.not_eq_true'] at hapart
    rw [List.append_assoc]
    exact IsDecimal.stops hrun hapart _

theorem Reads.stops_of_isSeparated (hp : isSeparated (piece :: p) = true) (h : Reads p runs text)
    (hafter : EndsBefore (piece :: p) after) : Stops piece.takes (text ++ after) := by
  cases p with
  | nil =>
    cases h
    exact hafter piece rfl
  | cons next p => exact h.stops (Bool.and_eq_true_iff.1 hp).1 after

/-- Runs taken whole lose no reading. -/
theorem Reads.match?_append (h : Reads p runs text) (hp : isSeparated p = true)
    (hafter : EndsBefore p after) : match? p (text ++ after) = some runs := by
  induction h with
  | nil => rfl
  | fixed lead h ih =>
    have hlead := ih (isSeparated_tail hp) hafter.tail
    rw [match?, List.append_assoc, after?_eq_some_iff.2 rfl]
    exact hlead
  | blanks hgap h ih =>
    have hrest := ih (isSeparated_tail hp) hafter.tail
    rw [match?, List.append_assoc,
      dropWhile_append_of_stops hgap (h.stops_of_isSeparated hp hafter)]
    exact hrest
  | digits hrun h ih =>
    have hrest := ih (isSeparated_tail hp) hafter.tail
    rw [match?, List.append_assoc, digits?_append hrun (h.stops_of_isSeparated hp hafter)]
    simp [hrest]
  | decimal hrun h ih =>
    have hrest := ih (isSeparated_tail hp) hafter.tail
    rw [match?, List.append_assoc, decimal?_append hrun (h.stops_of_isSeparated hp hafter)]
    simp [hrest]

/-- A run that ends the pattern may go on in the text that follows; it is read all the same. -/
theorem Reads.isSome_match? (h : Reads p runs text) (hp : isSeparated p = true)
    (after : List Char) : (match? p (text ++ after)).isSome := by
  induction h with
  | nil => rfl
  | fixed lead h ih =>
    rw [match?, List.append_assoc, after?_eq_some_iff.2 rfl]
    exact ih (isSeparated_tail hp)
  | @blanks p runs gap text hgap h ih =>
    rw [match?, List.append_assoc]
    cases p with
    | nil => rfl
    | cons next p =>
      rw [dropWhile_append_of_stops hgap (h.stops (Bool.and_eq_true_iff.1 hp).1 after)]
      exact ih (isSeparated_tail hp)
  | @digits p runs run text hrun h ih =>
    rw [match?, List.append_assoc]
    cases p with
    | nil =>
      obtain ⟨⟨found, rest⟩, hfound⟩ :=
        Option.isSome_iff_exists.1 (isSome_digits?_append hrun (text ++ after))
      rw [hfound]
      rfl
    | cons next p =>
      rw [digits?_append hrun (h.stops (Bool.and_eq_true_iff.1 hp).1 after)]
      simpa using ih (isSeparated_tail hp)
  | @decimal p runs run text hrun h ih =>
    rw [match?, List.append_assoc]
    cases p with
    | nil => cases hp
    | cons next p =>
      rw [decimal?_append hrun (h.stops (Bool.and_eq_true_iff.1 hp).1 after)]
      simpa using ih (isSeparated_tail hp)

theorem match?_eq_some (hp : isSeparated p = true) (h : match? p cs = some runs) :
    ∃ text after, cs = text ++ after ∧ Reads p runs text ∧ EndsBefore p after := by
  induction p generalizing cs runs with
  | nil =>
    cases h
    exact ⟨[], cs, rfl, .nil, by simp [EndsBefore]⟩
  | cons piece p ih =>
    -- What the first piece leaves is read by the others, and is all that follows if there are none.
    have hrest {rest : List Char} {runs : List (List Char)} (hmatch : match? p rest = some runs)
        (hstops : p = [] → Stops piece.takes rest) : ∃ text after, rest = text ++ after ∧
          Reads p runs text ∧ EndsBefore (piece :: p) after := by
      obtain ⟨text, after, rfl, hreads, hafter⟩ := ih (isSeparated_tail hp) hmatch
      refine ⟨text, after, rfl, hreads, hafter.cons fun hnil => ?_⟩
      subst hnil
      cases hreads
      exact hstops rfl
    cases piece with
    | fixed lead =>
      rw [match?] at h
      split at h
      · rename_i rest hlead
        obtain ⟨text, after, rfl, hreads, hafter⟩ := hrest h fun _ => stops_false rest
        refine ⟨lead.toList ++ text, after, ?_, .fixed lead hreads, hafter⟩
        rw [after?_eq_some_iff.1 hlead, List.append_assoc]
      · cases h
    | blanks =>
      rw [match?] at h
      obtain ⟨text, after, hsplit, hreads, hafter⟩ := hrest h fun _ => stops_dropWhile isBlank cs
      have hgap : IsBlanks (cs.takeWhile isBlank) := fun c hc => List.mem_takeWhile_imp hc
      refine ⟨cs.takeWhile isBlank ++ text, after, ?_, .blanks hgap hreads, hafter⟩
      rw [List.append_assoc, ← hsplit, List.takeWhile_append_dropWhile]
    | digits =>
      rw [match?] at h
      split at h
      · rename_i run rest hrun
        obtain ⟨hcs, hdigits, hstops⟩ := digits?_eq_some hrun
        obtain ⟨others, hmatch, rfl⟩ := Option.map_eq_some_iff.1 h
        obtain ⟨text, after, rfl, hreads, hafter⟩ := hrest hmatch fun _ => hstops
        refine ⟨run ++ text, after, ?_, .digits hdigits hreads, hafter⟩
        rw [hcs, List.append_assoc]
      · cases h
    | decimal =>
      rw [match?] at h
      split at h
      · rename_i run rest hrun
        obtain ⟨hcs, hdecimal⟩ := decimal?_eq_some hrun
        obtain ⟨others, hmatch, rfl⟩ := Option.map_eq_some_iff.1 h
        have hnil : p ≠ [] := by
          rintro rfl
          cases hp
        obtain ⟨text, after, rfl, hreads, hafter⟩ := hrest hmatch fun h => absurd h hnil
        refine ⟨run ++ text, after, ?_, .decimal hdecimal hreads, hafter⟩
        rw [hcs, List.append_assoc]
      · cases h

/-! ## The leftmost place -/

theorem find?_eq_some {p : Pattern} (h : find? p cs = some runs) : ∃ before rest,
    cs = before ++ rest ∧ match? p rest = some runs ∧
    ∀ front back, cs = front ++ back → front.length < before.length → match? p back = none := by
  induction cs with
  | nil => exact ⟨[], [], rfl, h, fun front back _ hlt => absurd hlt (Nat.not_lt_zero _)⟩
  | cons c cs ih =>
    rw [find?] at h
    split at h
    · rename_i found hfound
      cases h
      exact ⟨[], c :: cs, rfl, hfound, fun front back _ hlt => absurd hlt (Nat.not_lt_zero _)⟩
    · rename_i hnone
      obtain ⟨before, rest, rfl, hmatch, hfirst⟩ := ih h
      refine ⟨c :: before, rest, rfl, hmatch, fun front back hsplit hlt => ?_⟩
      cases front with
      | nil =>
        rw [List.nil_append] at hsplit
        rw [← hsplit]
        exact hnone
      | cons f front =>
        rw [List.cons_append, List.cons.injEq] at hsplit
        exact hfirst front back hsplit.2 (by simpa using hlt)

theorem find?_of_match? {p : Pattern} {before rest : List Char} (h : match? p rest = some runs)
    (hfirst : ∀ front back, before ++ rest = front ++ back → front.length < before.length →
      match? p back = none) : find? p (before ++ rest) = some runs := by
  induction before with
  | nil =>
    cases rest with
    | nil => exact h
    | cons c cs =>
      rw [List.nil_append, find?, h]
  | cons b before ih =>
    have hnone : match? p (b :: (before ++ rest)) = none :=
      hfirst [] (b :: (before ++ rest)) rfl (Nat.succ_pos _)
    rw [List.cons_append, find?, hnone]
    refine ih fun front back hsplit hlt => ?_
    refine hfirst (b :: front) back ?_ (by simpa using hlt)
    rw [List.cons_append, hsplit, List.cons_append]

theorem isSome_find?_append {p : Pattern} {before rest : List Char} (h : (match? p rest).isSome) :
    (find? p (before ++ rest)).isSome := by
  induction before with
  | nil =>
    cases rest with
    | nil => exact h
    | cons c cs =>
      obtain ⟨runs, hruns⟩ := Option.isSome_iff_exists.1 h
      rw [List.nil_append, find?, hruns]
      rfl
  | cons b before ih =>
    rw [List.cons_append, find?]
    split
    · rfl
    · exact ih

end Pattern

/-- `a` is what an occurrence of a form says whose start in the text is the leftmost, and `after`
follows this occurrence. -/
def Leftmost {α : Type} (form : α → List Char → Prop) (cs : List Char) (a : α)
    (after : List Char) : Prop :=
  ∃ before text, cs = before ++ (text ++ after) ∧ form a text ∧
    ∀ front other text' back, cs = front ++ (text' ++ back) → form other text' →
      before.length ≤ front.length

theorem Leftmost.of_form {α β : Type} {form : α → List Char → Prop} {form' : β → List Char → Prop}
    {cs after : List Char} {a : α} {holds : β → Prop} (h : Leftmost form cs a after)
    (hsame : ∀ text, form a text → ∃ b, form' b text ∧ holds b)
    (hback : ∀ other text, form' other text → ∃ a', form a' text) :
    ∃ b, Leftmost form' cs b after ∧ holds b := by
  obtain ⟨before, text, hsplit, hform, hfirst⟩ := h
  obtain ⟨b, hb, hholds⟩ := hsame text hform
  refine ⟨b, ⟨before, text, hsplit, hb, fun front other text' back hother hother' => ?_⟩, hholds⟩
  obtain ⟨a', ha'⟩ := hback other text' hother'
  exact hfirst front a' text' back hother ha'

namespace Pattern

theorem isSome_find?_iff {p : Pattern} {cs : List Char} (hp : isSeparated p = true) :
    (find? p cs).isSome ↔ ∃ runs text, text <:+: cs ∧ Reads p runs text := by
  constructor
  · intro h
    obtain ⟨runs, hruns⟩ := Option.isSome_iff_exists.1 h
    obtain ⟨before, rest, rfl, hmatch, -⟩ := find?_eq_some hruns
    obtain ⟨text, after, rfl, hreads, -⟩ := match?_eq_some hp hmatch
    exact ⟨runs, text, ⟨before, after, List.append_assoc before text after⟩, hreads⟩
  · rintro ⟨runs, text, ⟨before, after, rfl⟩, hreads⟩
    rw [List.append_assoc]
    exact isSome_find?_append (hreads.isSome_match? hp after)

/-- What is found are the runs of the leftmost part that the pattern reads, a run at its end taken
whole. -/
theorem find?_eq_some_iff {p : Pattern} {cs : List Char} {runs : List (List Char)}
    (hp : isSeparated p = true) : find? p cs = some runs ↔
      ∃ after, Leftmost (Reads p) cs runs after ∧ EndsBefore p after := by
  constructor
  · intro h
    obtain ⟨before, rest, rfl, hmatch, hfirst⟩ := find?_eq_some h
    obtain ⟨text, after, rfl, hreads, hafter⟩ := match?_eq_some hp hmatch
    refine ⟨after, ⟨before, text, rfl, hreads, ?_⟩, hafter⟩
    intro front other text' back hsplit hother
    by_contra hlt
    have hnone := hfirst front (text' ++ back) hsplit (Nat.lt_of_not_le hlt)
    have hsome := hother.isSome_match? hp back
    rw [hnone] at hsome
    cases hsome
  · rintro ⟨after, ⟨before, text, rfl, hreads, hleft⟩, hafter⟩
    refine find?_of_match? (hreads.match?_append hp hafter) fun front back hsplit hlt => ?_
    cases hback : match? p back with
    | none => rfl
    | some other =>
      obtain ⟨text', after', rfl, hother, -⟩ := match?_eq_some hp hback
      have hle := hleft front other text' after' hsplit hother
      omega

end Pattern

end BenchLedger.Text
