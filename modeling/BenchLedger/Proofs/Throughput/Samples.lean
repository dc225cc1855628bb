import BenchLedger.Proofs.Metrics.Enclosures
import BenchLedger.Proofs.Text.Reading
import Mathlib.Algebra.Ring.Nat

/-!
# The form of throughput lines

Which lines carry a sample, and which number it is: `sample_of_form`. Every decimal that the form
admits denotes a number (`literal?_of_denotes`), so no line of the form is dropped.
-/

namespace BenchLedger

open Text Decimal

namespace Decimal

/-- A decimal as a text and as the fraction `mantissa / 10 ^ places`: one or more digits, perhaps a
point and perhaps more digits, which count as the places. -/
inductive Denotes : (text : List Char) → (mantissa places : Nat) → Prop
  | whole {ds : List Char} (hds : IsDigits ds) : Denotes ds (value ds) 0
  | pointed {ds fs : List Char} (hds : IsDigits ds) (hfs : ∀ c ∈ fs, c.isDigit = true) :
      Denotes (ds ++ '.' :: fs) (value ds * 10 ^ fs.length + value fs) fs.length

theorem isDecimal_iff {text : List Char} :
    IsDecimal text ↔ ∃ mantissa places, Denotes text mantissa places := by
  constructor
  · rintro (hds | ⟨hds, hfs⟩)
    · exact ⟨_, _, .whole hds⟩
    · exact ⟨_, _, .pointed hds hfs⟩
  · rintro ⟨_, _, hds | ⟨hds, hfs⟩⟩
    · exact .whole hds
    · exact .pointed hds hfs

theorem value_append (xs ys : List Char) :
    value (xs ++ ys) = value xs * 10 ^ ys.length + value ys := by
  rw [value, Nat.ofDigitChars_append, Nat.ofDigitChars_eq_ofDigitChars_zero, Nat.mul_comm]
  rfl

theorem literal?_of_denotes {text : List Char} {mantissa places : Nat}
    (h : Denotes text mantissa places) :
    literal? text = some (Float.ofScientific mantissa true places) := by
  cases h with
  | whole hds =>
    have hend : Stops Char.isDigit [] := nofun
    have htake := takeWhile_append_of_stops hds.2 hend
    have hdrop := dropWhile_append_of_stops hds.2 hend
    rw [List.append_nil] at htake hdrop
    simp only [literal?, htake, hdrop, if_neg hds.1, nearest, List.append_nil, List.length_nil]
  | @pointed ds fs hds hfs =>
    have hpoint : Stops Char.isDigit ('.' :: fs) := by
      rintro c ⟨⟩
      rfl
    have hall : fs.all Char.isDigit = true := List.all_eq_true.2 hfs
    have hne : ds ++ fs ≠ [] := by simp [hds.1]
    simp only [literal?, takeWhile_append_of_stops hds.2 hpoint,
      dropWhile_append_of_stops hds.2 hpoint, hall, hne, ne_eq, not_false_eq_true, and_self,
      if_true, nearest, value_append]

end Decimal

namespace Throughput

/-- The texts that carry a sample, with the number that it is. -/
def IsSample (x : Float) (text : List Char) : Prop :=
  ∃ number mantissa places gap, Denotes number mantissa places ∧ IsBlanks gap ∧
    text = "(".toList ++ number ++ gap ++ "MIPS)".toList ∧
    x = Float.ofScientific mantissa true places

/-- Whether some part of a line carries a sample. -/
def CarriesSample (line : String) : Prop := ∃ x text, text <:+: line.toList ∧ IsSample x text

theorem isSeparated_pattern : Pattern.isSeparated pattern = true := by decide +kernel

theorem reads_pattern_iff {runs : List (List Char)} {text : List Char} :
    Pattern.Reads pattern runs text ↔ ∃ number gap, IsDecimal number ∧ IsBlanks gap ∧
      runs = [number] ∧ text = "(".toList ++ number ++ gap ++ "MIPS)".toList := by
  unfold pattern
  constructor
  · intro h
    obtain ⟨_, hnumber, rfl⟩ := Pattern.reads_fixed_iff.1 h
    obtain ⟨number, _, _, hdecimal, hgap, rfl, rfl⟩ := Pattern.reads_decimal_iff.1 hnumber
    obtain ⟨gap, _, hblanks, hunit, rfl⟩ := Pattern.reads_blanks_iff.1 hgap
    obtain ⟨_, hend, rfl⟩ := Pattern.reads_fixed_iff.1 hunit
    obtain ⟨rfl, rfl⟩ := Pattern.reads_nil_iff.1 hend
    refine ⟨number, gap, hdecimal, hblanks, rfl, ?_⟩
    simp only [List.append_assoc, List.append_nil]
  · rintro ⟨number, gap, hdecimal, hblanks, rfl, rfl⟩
    have hunit := Pattern.Reads.fixed "MIPS)" .nil
    have hreads := Pattern.Reads.fixed "(" (.decimal hdecimal (.blanks hblanks hunit))
    simpa only [List.append_assoc, List.append_nil] using hreads

theorem isSample_iff {x : Float} {text : List Char} : IsSample x text ↔
    ∃ run, Pattern.Reads pattern [run] text ∧ literal? run = some x := by
  constructor
  · rintro ⟨number, mantissa, places, gap, hdenotes, hgap, htext, rfl⟩
    have hdecimal := isDecimal_iff.2 ⟨mantissa, places, hdenotes⟩
    exact ⟨number, reads_pattern_iff.2 ⟨number, gap, hdecimal, hgap, rfl, htext⟩,
      literal?_of_denotes hdenotes⟩
  · rintro ⟨run, hreads, hliteral⟩
    obtain ⟨number, gap, hdecimal, hgap, hrun, htext⟩ := reads_pattern_iff.1 hreads
    obtain rfl : run = number := by simpa using hrun
    obtain ⟨mantissa, places, hdenotes⟩ := isDecimal_iff.1 hdecimal
    rw [literal?_of_denotes hdenotes, Option.some.injEq] at hliteral
    exact ⟨run, mantissa, places, gap, hdenotes, hgap, htext, hliteral.symm⟩

theorem exists_isSample_iff {text : List Char} :
    (∃ x, IsSample x text) ↔ ∃ runs, Pattern.Reads pattern runs text := by
  constructor
  · rintro ⟨x, hx⟩
    obtain ⟨run, hreads, -⟩ := isSample_iff.1 hx
    exact ⟨[run], hreads⟩
  · rintro ⟨runs, hreads⟩
    obtain ⟨number, gap, hdecimal, hgap, rfl, htext⟩ := reads_pattern_iff.1 hreads
    obtain ⟨mantissa, places, hdenotes⟩ := isDecimal_iff.1 hdecimal
    exact ⟨_, number, mantissa, places, gap, hdenotes, hgap, htext, rfl⟩

theorem sample?_eq_some_iff {line : String} {x : Float} : sample? line = some x ↔
    ∃ run, pattern.find? line.toList = some [run] ∧ literal? run = some x := by
  constructor
  · intro h
    unfold sample? at h
    split at h
    · rename_i run hfind
      exact ⟨run, hfind, h⟩
    · cases h
  · rintro ⟨run, hfind, hliteral⟩
    rw [sample?, hfind]
    exact hliteral

theorem sample?_eq_some_iff_leftmost {line : String} {x : Float} :
    sample? line = some x ↔ ∃ after, Leftmost IsSample line.toList x after := by
  have hends (after : List Char) : Pattern.EndsBefore pattern after := by
    rintro last ⟨⟩
    exact stops_false after
  rw [sample?_eq_some_iff]
  simp only [Pattern.find?_eq_some_iff isSeparated_pattern, hends, and_true]
  constructor
  · rintro ⟨run, ⟨after, hleft⟩, hliteral⟩
    have hsame (text : List Char) (hreads : Pattern.Reads pattern [run] text) :
        ∃ y, IsSample y text ∧ y = x := ⟨x, isSample_iff.2 ⟨run, hreads, hliteral⟩, rfl⟩
    obtain ⟨_, hsample, rfl⟩ := hleft.of_form hsame fun other text hother =>
      exists_isSample_iff.1 ⟨other, hother⟩
    exact ⟨after, hsample⟩
  · rintro ⟨after, hleft⟩
    have hsame (text : List Char) (hsample : IsSample x text) : ∃ runs,
        Pattern.Reads pattern runs text ∧ ∃ run, runs = [run] ∧ literal? run = some x := by
      obtain ⟨run, hreads, hliteral⟩ := isSample_iff.1 hsample
      exact ⟨[run], hreads, run, rfl, hliteral⟩
    obtain ⟨_, hreads, run, rfl, hliteral⟩ := hleft.of_form hsame fun runs text hruns =>
      exists_isSample_iff.2 ⟨runs, hruns⟩
    exact ⟨run, ⟨after, hreads⟩, hliteral⟩

theorem isSome_sample?_iff (line : String) : (sample? line).isSome ↔ CarriesSample line := by
  constructor
  · intro h
    obtain ⟨x, hx⟩ := Option.isSome_iff_exists.1 h
    obtain ⟨after, before, text, hsplit, hsample, -⟩ := sample?_eq_some_iff_leftmost.1 hx
    refine ⟨x, text, ⟨before, after, ?_⟩, hsample⟩
    rw [hsplit, List.append_assoc]
  · rintro ⟨x, text, hpart, hsample⟩
    obtain ⟨runs, hreads⟩ := exists_isSample_iff.1 ⟨x, hsample⟩
    have hfound := (Pattern.isSome_find?_iff isSeparated_pattern).2 ⟨runs, text, hpart, hreads⟩
    obtain ⟨found, hfind⟩ := Option.isSome_iff_exists.1 hfound
    obtain ⟨after, ⟨before, text', -, hreads', -⟩, -⟩ :=
      (Pattern.find?_eq_some_iff isSeparated_pattern).1 hfind
    obtain ⟨number, gap, hdecimal, -, rfl, -⟩ := reads_pattern_iff.1 hreads'
    obtain ⟨mantissa, places, hdenotes⟩ := isDecimal_iff.1 hdecimal
    rw [sample?_eq_some_iff.2 ⟨number, hfind, literal?_of_denotes hdenotes⟩]
    rfl

instance : DecidablePred CarriesSample := fun line => decidable_of_iff _ (isSome_sample?_iff line)

/-- **A line has a sample exactly if a part of it has the form**, a parenthesis with a decimal, any
blanks and the unit. The sample is the decimal of the part that starts leftmost, taken whole, and
each line of the form brings one sample to a capture, in order. -/
theorem sample_of_form :
    (∀ line, (sample? line).isSome ↔ CarriesSample line) ∧
    (∀ line x, sample? line = some x ↔ ∃ after, Leftmost IsSample line.toList x after) ∧
    ∀ lines, (Metrics.ofLines lines).samples.map some =
      (lines.filter (CarriesSample ·)).map sample? := by
  refine ⟨isSome_sample?_iff, fun line x => sample?_eq_some_iff_leftmost, fun lines => ?_⟩
  have hcarries (line : String) : decide (CarriesSample line) = (sample? line).isSome := by
    rw [Bool.eq_iff_iff, decide_eq_true_eq, isSome_sample?_iff]
  have hsamples : (Metrics.ofLines lines).samples = lines.filterMap sample? :=
    Scan.samples_ofLines lines
  rw [hsamples, List.map_filterMap_some_eq_filter_map_isSome, List.filter_map]
  exact congrArg _ (List.filter_congr fun line _ => (hcarries line).symm)

/-- Openings that lead to nothing are passed over, and a point may end the decimal. -/
example : sample? "(1.2.3 MIPS) ((04. MIPS)" = some (Float.ofScientific 4 true 0) := rfl

end Throughput

end BenchLedger
