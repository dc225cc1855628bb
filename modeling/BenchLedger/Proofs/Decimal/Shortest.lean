import BenchLedger.Decimal.Shortest
import Mathlib.Data.List.DropRight
import Mathlib.Tactic.NormNum

/-!
# Shortest decimals start with no zero

The shortest decimal of a number other than zero has a digit other than zero in front
(`head?_shortestDigits`). A decimal that reads back is not zero, because zero lies below the
interval of every number; and if no decimal of seventeen digits reads back, the one that is used
instead has the magnitude of the number.
-/

namespace BenchLedger.Decimal

/-! ## Digits -/

theorem digits_ne_nil (n : Nat) : digits n ≠ [] := Nat.toDigits_ne_nil

theorem pow_length_digits_le {n : Nat} (h : n ≠ 0) : 10 ^ ((digits n).length - 1) ≤ n := by
  rcases Nat.eq_zero_or_pos ((digits n).length - 1) with hone | hmore
  · rw [hone]
    exact Nat.one_le_iff_ne_zero.2 h
  · by_contra hlt
    have hle := (Nat.length_toDigits_le_iff (by decide) hmore).2 (Nat.not_le.1 hlt)
    change (digits n).length ≤ (digits n).length - 1 at hle
    omega

theorem head?_digits {n : Nat} (h : n ≠ 0) : (digits n).head? ≠ some '0' := by
  induction n using Nat.strongRecOn with
  | ind n ih =>
    rcases Nat.lt_or_ge n 10 with hlt | hge
    · rw [digits, Nat.toDigits_of_lt_base hlt]
      have hsmall : ∀ d < 10, d ≠ 0 → [Nat.digitChar d].head? ≠ some '0' := by decide
      exact hsmall n hlt h
    · have hfront := ih (n / 10) (by omega) (by omega)
      rw [digits, Nat.toDigits_of_base_le (by decide) hge]
      rwa [List.head?_append_of_ne_nil _ Nat.toDigits_ne_nil]

/-! ## Decimals that read back -/

namespace Rounding

variable {r : Rounding} {a : Nat} {k : Int}

theorem ne_zero_of_readsBack (hlow : 0 < r.low) (h : r.readsBack a k = true) : a ≠ 0 := by
  rintro rfl
  have hless : r.compareWith 0 k r.low = .lt := by
    rw [compareWith, Nat.compare_eq_lt, Nat.zero_mul, Nat.zero_mul]
    exact Nat.mul_pos (Nat.mul_pos hlow (Nat.pow_pos (by decide))) (Nat.pow_pos (by decide))
  rw [readsBack, hless] at h
  cases h

theorem readsBack_of_nearest? (h : r.nearest? k = some a) : r.readsBack a k = true := by
  unfold nearest? at h
  dsimp only at h
  split at h
  · rename_i hbelow _
    rwa [← Option.some.inj h]
  · rename_i _ habove
    rwa [← Option.some.inj h]
  · cases h
  · rename_i hbelow habove
    split at h
    · rwa [← Option.some.inj h]
    · rwa [← Option.some.inj h]
    · rw [← Option.some.inj h]
      split_ifs
      · exact hbelow
      · exact habove

end Rounding

/-! ## The magnitude -/

namespace Rounding

variable {r : Rounding} {k : Int}

theorem le_below_iff {n : Nat} : n ≤ r.below k ↔
    n * (10 ^ k.toNat * 2 ^ (-r.exponent).toNat) ≤
      r.middle * 2 ^ r.exponent.toNat * 10 ^ (-k).toNat :=
  Nat.le_div_iff_mul_le (Nat.mul_pos (Nat.pow_pos (by decide)) (Nat.pow_pos (by decide)))

theorem below_magnitude_ne_zero (h : r.below (-324) ≠ 0) : r.below (r.magnitude - 17) ≠ 0 := by
  have hlength := pow_length_digits_le h
  rw [← Nat.one_le_iff_ne_zero, le_below_iff]
  rw [le_below_iff] at hlength
  have hsome : 0 < (digits (r.below (-324))).length := Nat.length_toDigits_pos
  have hmagnitude : r.magnitude - 17 = (digits (r.below (-324))).length - 341 := by
    rw [magnitude]
    omega
  rw [hmagnitude, Nat.one_mul]
  generalize (digits (r.below (-324))).length = l at *
  generalize r.middle * 2 ^ r.exponent.toNat = n at *
  generalize 2 ^ (-r.exponent).toNat = d at *
  -- Both sides are compared at the power `10 ^ 340`.
  obtain ⟨p, hp⟩ : ∃ p, p = 340 := ⟨340, rfl⟩
  have hcoarse : 10 ^ (l - 1) * d ≤ n * 10 ^ p :=
    calc 10 ^ (l - 1) * d = 10 ^ (l - 1) * (1 * d) := by rw [Nat.one_mul]
      _ ≤ n * 10 ^ (-(-324 : Int)).toNat := hlength
      _ ≤ n * 10 ^ p := Nat.mul_le_mul_left n (Nat.pow_le_pow_right (by decide) (by omega))
  have hpowers : 10 ^ (l - 1) * 10 ^ (-((l : Int) - 341)).toNat =
      10 ^ ((l : Int) - 341).toNat * 10 ^ p := by
    rw [← Nat.pow_add, ← Nat.pow_add]
    congr 1
    omega
  refine Nat.le_of_mul_le_mul_right ?_ (Nat.pow_pos (n := p) (by decide : 0 < 10))
  calc 10 ^ ((l : Int) - 341).toNat * d * 10 ^ p
      = 10 ^ (l - 1) * 10 ^ (-((l : Int) - 341)).toNat * d := by rw [hpowers, Nat.mul_right_comm]
    _ = 10 ^ (l - 1) * d * 10 ^ (-((l : Int) - 341)).toNat := Nat.mul_right_comm ..
    _ ≤ n * 10 ^ p * 10 ^ (-((l : Int) - 341)).toNat := Nat.mul_le_mul_right _ hcoarse
    _ = n * 10 ^ (-((l : Int) - 341)).toNat * 10 ^ p := Nat.mul_right_comm ..

end Rounding

theorem below_ofFinite_ne_zero {m : Nat} {e : Int} (hm : m ≠ 0) (he : -1074 ≤ e) :
    (Rounding.ofFinite m e).below (-324) ≠ 0 := by
  have hexponent : (-(e - 2)).toNat ≤ 1076 := by omega
  have hone : 1 ≤ m * 2 ^ (e - 2).toNat :=
    Nat.mul_pos (Nat.pos_of_ne_zero hm) (Nat.pow_pos (by decide))
  obtain ⟨q, hq⟩ : ∃ q, q = 1076 := ⟨1076, rfl⟩
  have hpowers : 2 ^ q ≤ 4 * 10 ^ (-(-324 : Int)).toNat := by
    subst hq
    decide +kernel
  rw [← Nat.one_le_iff_ne_zero, Rounding.le_below_iff]
  generalize 10 ^ (-(-324 : Int)).toNat = c at *
  calc 1 * (1 * 2 ^ (-(e - 2)).toNat)
      = 2 ^ (-(e - 2)).toNat := by rw [Nat.one_mul, Nat.one_mul]
    _ ≤ 2 ^ q := Nat.pow_le_pow_right (by decide) (hq ▸ hexponent)
    _ ≤ 4 * c := hpowers
    _ ≤ 4 * (m * 2 ^ (e - 2).toNat) * c := Nat.mul_le_mul_right c (Nat.mul_le_mul_left 4 hone)
    _ = 4 * m * 2 ^ (e - 2).toNat * c := by rw [Nat.mul_assoc 4 m]

namespace Rounding

-- An equation between functions: to compare their values would run the search.
theorem shortest_def : shortest = fun r =>
    have units (n : Nat) : Int := r.magnitude - n
    match (List.range' 1 17).findSome? fun n => (r.nearest? (units n)).map (·, units n) with
    | some decimal => decimal
    | none => (r.below (units 17), units 17) := by
  delta shortest
  rfl

/-- The shortest decimal is the nearest one of some length, or is cut off behind seventeen
digits. -/
theorem shortest_cases (r : Rounding) {P : Nat × Int → Prop}
    (hnearest : ∀ a k, r.nearest? k = some a → P (a, k))
    (hcut : P (r.below (r.magnitude - 17), r.magnitude - 17)) : P r.shortest := by
  rw [shortest_def]
  beta_reduce
  extract_lets units
  split
  · rename_i decimal hfound
    obtain ⟨n, -, hn⟩ := List.exists_of_findSome?_eq_some hfound
    obtain ⟨a, ha, rfl⟩ := Option.map_eq_some_iff.1 hn
    exact hnearest a (units n) ha
  · exact hcut

end Rounding

theorem shortest_ne_zero {m : Nat} {e : Int} (hm : m ≠ 0) (he : -1074 ≤ e) :
    (Rounding.ofFinite m e).shortest.1 ≠ 0 := by
  have hlow : 0 < (Rounding.ofFinite m e).low := by
    rw [Rounding.ofFinite]
    dsimp only
    split_ifs <;> omega
  refine Rounding.shortest_cases _ (P := fun decimal => decimal.1 ≠ 0) (fun a k hnearest => ?_) ?_
  · exact Rounding.ne_zero_of_readsBack hlow (Rounding.readsBack_of_nearest? hnearest)
  · exact Rounding.below_magnitude_ne_zero (below_ofFinite_ne_zero hm he)

/-! ## The digits -/

theorem fractionDigits_eq_cons {decimal : Nat × Int} (h : decimal.1 ≠ 0) :
    ∃ d ds, (fractionDigits decimal).1 = d :: ds ∧ d ≠ '0' := by
  obtain ⟨a, k⟩ := decimal
  have hfront := head?_digits h
  obtain ⟨d, ds, hdigits⟩ := List.exists_cons_of_ne_nil (digits_ne_nil a)
  have hd : d ≠ '0' := by
    rintro rfl
    exact hfront (by rw [hdigits]; rfl)
  have hprefix : (fractionDigits (a, k)).1 <+: d :: ds :=
    hdigits ▸ List.rdropWhile_prefix (· == '0') (digits a)
  have hne : (fractionDigits (a, k)).1 ≠ [] := by
    intro hnil
    have hall := (List.rdropWhile_eq_nil_iff (p := (· == '0')) (l := digits a)).1 hnil
    exact hd (by simpa using hall d (by simp [hdigits]))
  obtain ⟨d', ds', hfraction⟩ := List.exists_cons_of_ne_nil hne
  rw [hfraction] at hprefix ⊢
  exact ⟨d', ds', rfl, (List.cons_prefix_cons.1 hprefix).1 ▸ hd⟩

theorem isDigit_of_mem_fractionDigits {decimal : Nat × Int} {c : Char}
    (h : c ∈ (fractionDigits decimal).1) : c.isDigit = true := by
  obtain ⟨a, k⟩ := decimal
  exact isDigit_of_mem_digits ((List.rdropWhile_prefix (· == '0') (digits a)).mem h)

/-- **The shortest decimal starts with no zero**: its digits are those of a number other than zero,
so that they can stand before a point. -/
theorem shortestDigits_eq_cons {m : Nat} {e : Int} (hm : m ≠ 0) (he : -1074 ≤ e) :
    ∃ d ds, (shortestDigits m e).1 = d :: ds ∧ d ≠ '0' ∧ ∀ c ∈ d :: ds, c.isDigit = true := by
  obtain ⟨d, ds, hdigits, hd⟩ := fractionDigits_eq_cons (shortest_ne_zero hm he)
  refine ⟨d, ds, hdigits, hd, fun c hc => ?_⟩
  rw [← hdigits] at hc
  exact isDigit_of_mem_fractionDigits hc

end BenchLedger.Decimal
