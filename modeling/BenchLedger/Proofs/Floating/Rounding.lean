import Mathlib

/-!
# Rounding and powers of two

Floating-point numbers are rounded by shifts of a mantissa with two residual bits, which stand for
all digits that were shifted out (`Stands`). A number that is at most a power of two is rounded to
one that is at most this power (`bounded_round`), and one that exceeds the power by no more than half
a unit of the last place is rounded back to it (`bounded_round_absorbs`): so a sum stays below a power
of two however many small items are added.
-/

namespace BenchLedger.Floating

open Float.Model Float.Model.UnpackedFloat

/-! ## Mantissas with residual bits -/

/-- A number lies where the residual bits say, in units of the last place of the mantissa. -/
def Stands : ExtendedMantissa → ℚ → Prop
  | ⟨m, false, false⟩, x => x = m
  | ⟨m, false, true⟩, x => m < x ∧ x < m + 1 / 2
  | ⟨m, true, false⟩, x => x = m + 1 / 2
  | ⟨m, true, true⟩, x => m + 1 / 2 < x ∧ x < m + 1

namespace Stands

variable {em : ExtendedMantissa} {x : ℚ} {n : ℕ}

theorem exact (m : ℕ) : Stands (.ofMantissaAndAccuracy m .exact) m := rfl

theorem shiftRightOne (h : Stands em x) : Stands em.shiftRightOne (x / 2) := by
  obtain ⟨m, roundBit, stickyBit⟩ := em
  have hm : (m : ℚ) = 2 * (m / 2 : ℕ) + (m % 2 : ℕ) := by exact_mod_cast (Nat.div_add_mod m 2).symm
  rw [ExtendedMantissa.shiftRightOne]
  rcases Nat.mod_two_eq_zero_or_one m with hbit | hbit <;> rw [hbit] at hm ⊢ <;>
    cases roundBit <;> cases stickyBit <;> simp [Stands] at h ⊢ <;> push_cast at hm <;>
    first | linarith | (constructor <;> linarith)

theorem shiftRight (h : Stands em x) (n : ℕ) : Stands (em >>> n) (x / 2 ^ n) := by
  change Stands (n.repeat ExtendedMantissa.shiftRightOne em) _
  induction n with
  | zero => simpa [Nat.repeat] using h
  | succ n ih =>
    rw [Nat.repeat, pow_succ, ← div_div]
    exact ih.shiftRightOne

theorem mantissa_le (h : Stands em x) : (em.mantissa : ℚ) ≤ x := by
  obtain ⟨m, roundBit, stickyBit⟩ := em
  cases roundBit <;> cases stickyBit <;> simp only [Stands] at h <;> dsimp only <;> linarith

theorem le_rounded (em : ExtendedMantissa) : em.mantissa ≤ em.roundedMantissa := by
  obtain ⟨m, roundBit, stickyBit⟩ := em
  cases roundBit <;> cases stickyBit <;>
    simp [ExtendedMantissa.roundedMantissa, ExtendedMantissa.accuracy, Accuracy.roundToNearestEven]

theorem rounded_le (h : Stands em x) (hx : x ≤ n) : em.roundedMantissa ≤ n := by
  obtain ⟨m, roundBit, stickyBit⟩ := em
  have hle : (m : ℚ) ≤ n := h.mantissa_le.trans hx
  have hm : m ≤ n := by exact_mod_cast hle
  cases roundBit with
  | false => cases stickyBit <;> exact hm
  | true =>
    -- The number is above the mantissa, and so the bound is.
    have hlt : (m : ℚ) < n := by
      cases stickyBit <;> simp only [Stands] at h <;> linarith
    have hm : m < n := by exact_mod_cast hlt
    cases stickyBit with
    | false =>
      change m + m % 2 ≤ n
      omega
    | true => exact hm

theorem rounded_le_of_even (h : Stands em x) (hn : n % 2 = 0) (hx : x ≤ n + 1 / 2) :
    em.roundedMantissa ≤ n := by
  obtain ⟨m, roundBit, stickyBit⟩ := em
  have hlt : (m : ℚ) < n + 1 := by linarith [h.mantissa_le]
  have hm : m < n + 1 := by exact_mod_cast hlt
  cases roundBit with
  | false => cases stickyBit <;> exact Nat.lt_succ_iff.1 hm
  | true =>
    cases stickyBit with
    | false =>
      change m + m % 2 ≤ n
      omega
    | true =>
      simp only [Stands] at h
      have hlt : (m : ℚ) < n := by linarith
      exact_mod_cast hlt

end Stands

/-! ## Rounding -/

/-- The exponent of the last place of a mantissa: it leaves 53 digits, unless they would reach below
the least place. -/
def place (m : ℕ) (e : ℤ) : ℤ := max (m.log2 + e - 52) (-1074)

theorem targetExponent_binary64 (t : ℤ) : Format.binary64.targetExponent t = max (t - 53) (-1074) := by
  rw [Format.targetExponent]
  rfl

theorem targetExponent_eq (m : ℕ) (e : ℤ) :
    Format.binary64.targetExponent (totalExponent m e) = place m e := by
  rw [targetExponent_binary64, totalExponent, place]
  omega

/-- A finite number whose size is at most `2 ^ K` and which has no digit below the least place. -/
def Bounded (K : ℤ) : UnpackedFloat → Prop
  | .infinity _ => False
  | .notANumber => False
  | .zero _ => True
  | .finite _ m e _ => -1074 ≤ e ∧ (m : ℚ) * 2 ^ e ≤ 2 ^ K

theorem Bounded.zero_or_finite {K : ℤ} {f : UnpackedFloat} (h : Bounded K f) :
    (∃ s, f = .zero s) ∨ ∃ s m e hm, f = .finite s m e hm := by
  cases f with
  | infinity s => exact h.elim
  | notANumber => exact h.elim
  | zero s => exact .inl ⟨s, rfl⟩
  | finite s m e hm => exact .inr ⟨s, m, e, hm, rfl⟩

section round

variable {m : ℕ} {e K : ℤ} {acc : Accuracy} {x : ℚ} {s : Sign}

theorem shift_exponent (m : ℕ) (e : ℤ) (acc : Accuracy) :
    (shiftToTargetExponent Format.binary64 m e acc).2 = max e (place m e) := by
  simp only [shiftToTargetExponent, shiftToExponent, targetExponent_eq]
  omega

theorem Stands.shift (h : Stands (.ofMantissaAndAccuracy m acc) x) :
    Stands (shiftToTargetExponent Format.binary64 m e acc).1 (x * 2 ^ (e - max e (place m e))) := by
  have hshift := h.shiftRight (place m e - e).toNat
  have hamount : e - max e (place m e) = -((place m e - e).toNat : ℤ) := by omega
  rw [hamount, zpow_neg, zpow_natCast, ← div_eq_mul_inv]
  simpa only [shiftToTargetExponent, shiftToExponent, targetExponent_eq] using hshift

theorem bounded_roundWithAccuracy (s : Sign)
    (h : ((shiftToTargetExponent Format.binary64 m e acc).1.roundedMantissa : ℚ) *
      2 ^ max e (place m e) ≤ 2 ^ K) : Bounded K (roundWithAccuracy Format.binary64 s m e acc) := by
  rw [← shift_exponent m e acc] at h
  rw [roundWithAccuracy]
  generalize shiftToTargetExponent Format.binary64 m e acc = shifted at h ⊢
  obtain ⟨em, e₁⟩ := shifted
  dsimp only at h ⊢
  split_ifs with hzero
  · trivial
  · rw [Bounded, shift_exponent]
    refine ⟨by rw [place]; omega, le_trans ?_ h⟩
    have hsize := (Stands.exact em.roundedMantissa).shift (e := e₁) |>.mantissa_le
    generalize place em.roundedMantissa e₁ = e₂ at hsize ⊢
    calc _ ≤ (em.roundedMantissa : ℚ) * 2 ^ (e₁ - max e₁ e₂) * 2 ^ max e₁ e₂ := by gcongr
      _ = _ := by rw [mul_assoc, ← zpow_add₀ two_ne_zero, sub_add_cancel]

theorem log2_add_le (hm : m ≠ 0) (h : (m : ℚ) * 2 ^ e < 2 ^ (K + 1)) : m.log2 + e ≤ K := by
  have hlog : (2 : ℚ) ^ m.log2 ≤ m := by exact_mod_cast Nat.log2_self_le hm
  have hpow : (2 : ℚ) ^ (m.log2 + e) < 2 ^ (K + 1) := by
    rw [zpow_add₀ two_ne_zero, zpow_natCast]
    exact lt_of_le_of_lt (by gcongr) h
  exact Int.lt_add_one_iff.1 ((zpow_lt_zpow_iff_right₀ one_lt_two).1 hpow)

theorem le_log2_add (h : (2 : ℚ) ^ K ≤ m * 2 ^ e) : K ≤ m.log2 + e := by
  have hlog : (m : ℚ) < 2 ^ (m.log2 + 1) := by exact_mod_cast Nat.lt_log2_self
  have hpow : (2 : ℚ) ^ K < 2 ^ (m.log2 + e + 1) := by
    rw [add_right_comm, zpow_add₀ two_ne_zero]
    refine lt_of_le_of_lt h ?_
    gcongr
    exact_mod_cast hlog
  exact Int.lt_add_one_iff.1 ((zpow_lt_zpow_iff_right₀ one_lt_two).1 hpow)

theorem place_le (h : (m : ℚ) * 2 ^ e ≤ 2 ^ K) (he : e ≤ K) (hK : -1074 ≤ K) : place m e ≤ K := by
  have hlog : m.log2 + e ≤ K := by
    rcases eq_or_ne m 0 with rfl | hm
    · simpa using he
    · exact log2_add_le hm (h.trans_lt ((zpow_lt_zpow_iff_right₀ one_lt_two).2 (lt_add_one K)))
  rw [place]
  omega

theorem bounded_round (s : Sign) (h : Stands (.ofMantissaAndAccuracy m acc) x)
    (hx : x * 2 ^ e ≤ 2 ^ K) (he : e ≤ K) (hK : -1074 ≤ K) :
    Bounded K (roundWithAccuracy Format.binary64 s m e acc) := by
  have hmantissa : (m : ℚ) ≤ x := by
    cases acc with
    | exact => exact h.mantissa_le
    | inexact o => cases o <;> exact h.mantissa_le
  have hplace : max e (place m e) ≤ K :=
    max_le he (place_le (le_trans (by gcongr) hx) he hK)
  obtain ⟨k, hk⟩ := Int.eq_ofNat_of_zero_le (sub_nonneg.2 hplace)
  have hpower : (2 : ℚ) ^ K = ((2 ^ k : ℕ) : ℚ) * 2 ^ max e (place m e) := by
    rw [Nat.cast_pow, Nat.cast_ofNat, ← zpow_natCast, ← zpow_add₀ two_ne_zero, ← hk,
      sub_add_cancel]
  have hrounded : (shiftToTargetExponent Format.binary64 m e acc).1.roundedMantissa ≤ 2 ^ k := by
    refine h.shift.rounded_le ?_
    rwa [zpow_sub₀ two_ne_zero, ← mul_div_assoc, div_le_iff₀ (by positivity), ← hpower]
  refine bounded_roundWithAccuracy s ?_
  rw [hpower]
  gcongr

theorem bounded_roundExact (s : Sign) (h : (m : ℚ) * 2 ^ e ≤ 2 ^ K) (he : e ≤ K) (hK : -1074 ≤ K) :
    Bounded K (roundWithAccuracy Format.binary64 s m e .exact) :=
  bounded_round s (.exact m) h he hK

/-- A number that exceeds a power of two by at most half a unit of its last place is rounded to one
that is at most this power. -/
theorem bounded_round_absorbs (s : Sign) (h : (m : ℚ) * 2 ^ e ≤ 2 ^ K + 2 ^ (K - 53))
    (he : e ≤ place m e) (hK : -1022 ≤ K) :
    Bounded K (roundWithAccuracy Format.binary64 s m e .exact) := by
  have hbelow : m.log2 + e ≤ K := by
    rcases eq_or_ne m 0 with rfl | hm
    · rw [place] at he
      simp only [Nat.log2_zero] at he ⊢
      omega
    · have hless : (2 : ℚ) ^ (K - 53) < 2 ^ K := (zpow_lt_zpow_iff_right₀ one_lt_two).2 (by omega)
      refine log2_add_le hm (h.trans_lt ?_)
      rw [zpow_add_one₀ two_ne_zero]
      linarith
  rcases le_or_gt ((m : ℚ) * 2 ^ e) (2 ^ K) with hle | hgt
  · rw [place] at he
    exact bounded_roundExact s hle (by omega) (by omega)
  have hat : place m e = K - 52 := by
    have habove := le_log2_add hgt.le
    rw [place]
    omega
  have hpower : (2 : ℚ) ^ K = ((2 ^ 52 : ℕ) : ℚ) * 2 ^ (K - 52) := by
    rw [Nat.cast_pow, Nat.cast_ofNat, ← zpow_natCast, ← zpow_add₀ two_ne_zero]
    congr 1
    push_cast
    omega
  have hhalf : (2 : ℚ) ^ (K - 53) = 1 / 2 * 2 ^ (K - 52) := by
    rw [show K - 52 = K - 53 + 1 by omega, zpow_add_one₀ two_ne_zero]
    ring
  have hrounded : (shiftToTargetExponent Format.binary64 m e .exact).1.roundedMantissa ≤ 2 ^ 52 := by
    refine (Stands.exact m).shift.rounded_le_of_even (by norm_num) ?_
    rw [hpower, hhalf, ← add_mul] at h
    rwa [max_eq_right he, hat, zpow_sub₀ two_ne_zero, ← mul_div_assoc,
      div_le_iff₀ (by positivity)]
  refine bounded_roundWithAccuracy s ?_
  rw [max_eq_right he, hat, hpower]
  gcongr

theorem Bounded.mono {f : UnpackedFloat} {J : ℤ} (h : Bounded J f) (hJK : J ≤ K) : Bounded K f := by
  obtain ⟨s, rfl⟩ | ⟨s, m, e, hm, rfl⟩ := h.zero_or_finite
  · trivial
  · exact ⟨h.1, h.2.trans ((zpow_le_zpow_iff_right₀ one_lt_two).2 hJK)⟩

theorem Bounded.exponent_le {hm : 0 < m} (h : Bounded K (.finite s m e hm)) : e ≤ K := by
  have hone : (1 : ℚ) ≤ m := by exact_mod_cast hm
  have hpower : (2 : ℚ) ^ e ≤ 2 ^ K := (le_mul_of_one_le_left (by positivity) hone).trans h.2
  exact (zpow_le_zpow_iff_right₀ one_lt_two).1 hpower

end round

/-! ## Whole numbers -/

section normalize

variable {m : ℕ} {e K : ℤ} {s : Sign} {n : ℤ}

theorem decreaseExponent_size (m : ℕ) (e t : ℤ) :
    ((decreaseExponent m e t).1 : ℚ) * 2 ^ (decreaseExponent m e t).2 = m * 2 ^ e := by
  simp only [decreaseExponent, Nat.shiftLeft_eq]
  push_cast
  rw [mul_assoc, ← zpow_natCast, ← zpow_add₀ two_ne_zero, add_sub_cancel]

theorem log2_shiftLeft (hm : m ≠ 0) (k : ℕ) : (m <<< k).log2 = m.log2 + k := by
  induction k with
  | zero => rfl
  | succ k ih =>
    have hne : m <<< k ≠ 0 := by simp [Nat.shiftLeft_eq, hm]
    rw [Nat.shiftLeft_succ, Nat.log2_two_mul hne, ih, Nat.add_assoc]

theorem decreaseExponent_le_place (hm : m ≠ 0) (e : ℤ) :
    (decreaseExponent m e (place m e)).2 ≤
      place (decreaseExponent m e (place m e)).1 (decreaseExponent m e (place m e)).2 := by
  simp only [decreaseExponent, place, log2_shiftLeft hm]
  omega

theorem bounded_roundWhole (s : Sign) (hm : m ≠ 0) (h : (m : ℚ) * 2 ^ e ≤ 2 ^ K + 2 ^ (K - 53))
    (hK : -1022 ≤ K) : Bounded K (round Format.binary64 s m e) := by
  simp only [UnpackedFloat.round, targetExponent_eq]
  exact bounded_round_absorbs s (by rwa [decreaseExponent_size]) (decreaseExponent_le_place hm e) hK

theorem bounded_normalize (zeroSign : Sign) (h : |(n : ℚ)| * 2 ^ e ≤ 2 ^ K + 2 ^ (K - 53))
    (hK : -1022 ≤ K) : Bounded K (normalize Format.binary64 n e zeroSign) := by
  rw [← Int.cast_abs, ← Int.natCast_natAbs, Int.cast_natCast] at h
  rw [UnpackedFloat.normalize]
  split
  · rename_i hn
    have hneg : n < 0 := Int.compare_eq_lt.1 hn
    have habs : (-n).toNat = n.natAbs := by omega
    rw [habs]
    exact bounded_roundWhole _ (by omega) h hK
  · trivial
  · rename_i hn
    have hpos : 0 < n := Int.compare_eq_gt.1 hn
    have habs : n.toNat = n.natAbs := by omega
    rw [habs]
    exact bounded_roundWhole _ (by omega) h hK

end normalize

/-! ## Numbers that are one or more -/

/-- A positive number in the form of its format that is at least one, or positive infinity. -/
def AtLeastOne : UnpackedFloat → Prop
  | .infinity s => s = .positive
  | .notANumber => False
  | .zero _ => False
  | .finite s m e _ => s = .positive ∧ m.log2 = 52 ∧ -52 ≤ e

theorem AtLeastOne.infinity_or_finite {f : UnpackedFloat} (h : AtLeastOne f) :
    f = .infinity .positive ∨
      ∃ m e hm, f = .finite .positive m e hm ∧ m.log2 = 52 ∧ -52 ≤ e := by
  cases f with
  | infinity s => exact .inl (congrArg _ h)
  | notANumber => exact h.elim
  | zero s => exact h.elim
  | finite s m e hm =>
    obtain ⟨rfl, hlog, he⟩ := h
    exact .inr ⟨m, e, hm, rfl, hlog, he⟩

instance decidablePositive : (s : Sign) → Decidable (s = .positive)
  | .positive => .isTrue rfl
  | .negative => .isFalse nofun

instance decidableAtLeastOne : (f : UnpackedFloat) → Decidable (AtLeastOne f)
  | .infinity s => inferInstanceAs (Decidable (s = .positive))
  | .notANumber => .isFalse id
  | .zero _ => .isFalse id
  | .finite s m e _ => inferInstanceAs (Decidable (s = .positive ∧ m.log2 = 52 ∧ -52 ≤ e))

section atLeastOne

variable {m : ℕ} {e : ℤ} {n : ℤ}

theorem shift_mantissa (m : ℕ) (e : ℤ) : (shiftToTargetExponent Format.binary64 m e .exact).1.mantissa =
    m / 2 ^ (place m e - e).toNat := by
  have hshift (em : ExtendedMantissa) (k : ℕ) : (em >>> k).mantissa = em.mantissa / 2 ^ k := by
    change (k.repeat ExtendedMantissa.shiftRightOne em).mantissa = _
    induction k with
    | zero => simp [Nat.repeat]
    | succ k ih =>
      rw [Nat.repeat, ExtendedMantissa.shiftRightOne, ih, Nat.div_div_eq_div_mul, pow_succ]
  simp only [shiftToTargetExponent, shiftToExponent, targetExponent_eq, hshift]
  rfl

theorem log2_shift (hm : 52 ≤ m.log2) (h : -1022 ≤ m.log2 + e) :
    (shiftToTargetExponent Format.binary64 m e .exact).1.mantissa.log2 = 52 := by
  have hamount : (place m e - e).toNat = m.log2 - 52 := by
    rw [place]
    omega
  rw [shift_mantissa, hamount, Nat.log2_eq_log_two, Nat.log_div_base_pow, ← Nat.log2_eq_log_two]
  omega

theorem atLeastOne_round (hm : 52 ≤ m.log2) (h : 0 ≤ m.log2 + e) :
    AtLeastOne (roundWithAccuracy Format.binary64 .positive m e .exact) := by
  have hfirst := log2_shift hm (e := e) (by omega)
  have hexponent := shift_exponent m e .exact
  rw [roundWithAccuracy]
  generalize shiftToTargetExponent Format.binary64 m e .exact = shifted at hfirst hexponent
  obtain ⟨em, e₁⟩ := shifted
  have hrounded : 52 ≤ em.roundedMantissa.log2 := by
    have hne : em.mantissa ≠ 0 := by
      rintro hzero
      simp [hzero] at hfirst
    have hle := Stands.le_rounded em
    rw [Nat.le_log2 (by omega)]
    exact ((Nat.le_log2 hne).1 hfirst.ge).trans hle
  have he : -52 ≤ e₁ := by
    dsimp only at hexponent
    rw [hexponent, place]
    omega
  have hsecond := log2_shift hrounded (e := e₁) (by omega)
  dsimp only
  split_ifs with hzero
  · rw [hzero] at hsecond
    cases hsecond
  · refine ⟨rfl, hsecond, ?_⟩
    rw [shift_exponent]
    omega

theorem atLeastOne_normalize (hn : 0 < n) : AtLeastOne (normalize Format.binary64 n 0 .positive) := by
  have hm : n.toNat ≠ 0 := by omega
  rw [UnpackedFloat.normalize, Int.compare_eq_gt.2 hn]
  simp only [UnpackedFloat.round, targetExponent_eq]
  refine atLeastOne_round ?_ ?_
  · simp only [decreaseExponent, place, log2_shiftLeft hm]
    omega
  · simp only [decreaseExponent, place, log2_shiftLeft hm]
    omega

end atLeastOne

/-! ## Numbers that are not negative -/

/-- A number, if it is one, that is not below zero. -/
def Nonneg : UnpackedFloat → Prop
  | .finite s _ _ _ => s = .positive
  | _ => True

section nonneg

variable {m : ℕ} {e n : ℤ} {acc : Accuracy}

theorem nonneg_round : Nonneg (roundWithAccuracy Format.binary64 .positive m e acc) := by
  rw [roundWithAccuracy]
  dsimp only
  split_ifs
  · trivial
  · rfl

theorem nonneg_normalize (hn : 0 ≤ n) (zeroSign : Sign) :
    Nonneg (normalize Format.binary64 n e zeroSign) := by
  rw [UnpackedFloat.normalize]
  split
  · rename_i hneg
    exact absurd (Int.compare_eq_lt.1 hneg) (Int.not_lt.2 hn)
  · trivial
  · exact nonneg_round

end nonneg

end BenchLedger.Floating
