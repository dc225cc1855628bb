import BenchLedger.Proofs.Floating.Packing

/-!
# Bounds of operations

What the operations on floating-point numbers do to the size of their operands. A sum absorbs items
that are small enough, so sums of any length stay below a power of two; a quotient by a number that
is at least one is no larger than what is divided.
-/

namespace BenchLedger.Floating

open Float.Model (Format UnpackedFloat totalExponent)
open Float.Model.UnpackedFloat

section unpacked

variable {f g : UnpackedFloat} {J K : ℤ}

/-! ## Sums and differences -/

theorem natAbs_apply (s : Sign) (m : ℕ) : (s.apply m).natAbs = m := by
  cases s <;> simp [Sign.apply]

theorem decreaseExponent_size_of_le (m : ℕ) {e t : ℤ} (h : t ≤ e) :
    ((decreaseExponent m e t).1 : ℚ) * 2 ^ t = m * 2 ^ e := by
  have hexponent : (decreaseExponent m e t).2 = t := by
    simp only [decreaseExponent]
    omega
  rw [← decreaseExponent_size m e t, hexponent]

theorem bounded_combined {m₁ m₂ : ℕ} {e₁ e₂ n : ℤ} (s : Sign)
    (hn : n.natAbs ≤ (decreaseExponent m₁ e₁ (min e₁ e₂)).1 + (decreaseExponent m₂ e₂ (min e₁ e₂)).1)
    (h : (m₁ : ℚ) * 2 ^ e₁ + m₂ * 2 ^ e₂ ≤ 2 ^ K + 2 ^ (K - 53)) (hK : -1022 ≤ K) :
    Bounded K (normalize Format.binary64 n (min e₁ e₂) s) := by
  refine bounded_normalize s (le_trans ?_ h) hK
  rw [← decreaseExponent_size_of_le m₁ (min_le_left e₁ e₂),
    ← decreaseExponent_size_of_le m₂ (min_le_right e₁ e₂), ← add_mul, ← Int.cast_abs,
    ← Int.natCast_natAbs, Int.cast_natCast]
  gcongr
  exact_mod_cast hn

theorem bounded_add (hf : Bounded K f) (hg : Bounded (K - 53) g) (hK : -1022 ≤ K) :
    Bounded K (add Format.binary64 f g) := by
  obtain ⟨s₁, rfl⟩ | ⟨s₁, m₁, e₁, hm₁, rfl⟩ := hf.zero_or_finite <;>
    obtain ⟨s₂, rfl⟩ | ⟨s₂, m₂, e₂, hm₂, rfl⟩ := hg.zero_or_finite
  · rw [add]
    split_ifs <;> trivial
  · exact hg.mono (by omega)
  · exact hf
  · refine bounded_combined _ ?_ (add_le_add hf.2 hg.2) hK
    exact (Int.natAbs_add_le _ _).trans_eq (congrArg₂ (· + ·) (natAbs_apply _ _) (natAbs_apply _ _))

/-- What a number is subtracted from may be as small as what a sum absorbs. -/
theorem bounded_sub (hf : Bounded (K - 53) f) (hg : Bounded K g) (hK : -1022 ≤ K) :
    Bounded K (sub Format.binary64 f g) := by
  obtain ⟨s₁, rfl⟩ | ⟨s₁, m₁, e₁, hm₁, rfl⟩ := hf.zero_or_finite <;>
    obtain ⟨s₂, rfl⟩ | ⟨s₂, m₂, e₂, hm₂, rfl⟩ := hg.zero_or_finite
  · rw [sub]
    split_ifs <;> trivial
  · exact hg
  · exact hf.mono (by omega)
  · refine bounded_combined _ ?_ ((add_le_add hf.2 hg.2).trans_eq (add_comm _ _)) hK
    exact (Int.natAbs_sub_le _ _).trans_eq (congrArg₂ (· + ·) (natAbs_apply _ _) (natAbs_apply _ _))

theorem nonneg_add (hf : Bounded J f) (hg : Bounded K g) (hf' : Nonneg f) (hg' : Nonneg g) :
    Nonneg (add Format.binary64 f g) := by
  obtain ⟨s₁, rfl⟩ | ⟨s₁, m₁, e₁, hm₁, rfl⟩ := hf.zero_or_finite <;>
    obtain ⟨s₂, rfl⟩ | ⟨s₂, m₂, e₂, hm₂, rfl⟩ := hg.zero_or_finite
  · rw [add]
    split_ifs <;> trivial
  · exact hg'
  · exact hf'
  · obtain rfl : s₁ = .positive := hf'
    obtain rfl : s₂ = .positive := hg'
    exact nonneg_normalize (Int.add_nonneg (Int.natCast_nonneg _) (Int.natCast_nonneg _)) _

/-! ## Products -/

theorem bounded_mul (hf : Bounded J f) (hg : Bounded K g) (hJK : -1074 ≤ J + K) :
    Bounded (J + K) (mul Format.binary64 f g) := by
  obtain ⟨s₁, rfl⟩ | ⟨s₁, m₁, e₁, hm₁, rfl⟩ := hf.zero_or_finite <;>
    obtain ⟨s₂, rfl⟩ | ⟨s₂, m₂, e₂, hm₂, rfl⟩ := hg.zero_or_finite
  · trivial
  · trivial
  · trivial
  · refine bounded_roundExact _ ?_ (add_le_add hf.exponent_le hg.exponent_le) hJK
    rw [Nat.cast_mul, zpow_add₀ two_ne_zero, zpow_add₀ two_ne_zero, mul_mul_mul_comm]
    exact mul_le_mul hf.2 hg.2 (by positivity) (by positivity)

theorem nonneg_square (f : UnpackedFloat) : Nonneg (mul Format.binary64 f f) := by
  cases f with
  | infinity s => trivial
  | notANumber => trivial
  | zero s => trivial
  | finite s m e hm => cases s <;> exact nonneg_round

theorem atLeastOne_mul (hf : AtLeastOne f) (hg : AtLeastOne g) :
    AtLeastOne (mul Format.binary64 f g) := by
  obtain rfl | ⟨m₁, e₁, hm₁, rfl, hlog₁, he₁⟩ := hf.infinity_or_finite <;>
    obtain rfl | ⟨m₂, e₂, hm₂, rfl, hlog₂, he₂⟩ := hg.infinity_or_finite
  · rfl
  · rfl
  · rfl
  · have hlog : 104 ≤ (m₁ * m₂).log2 := by
      rw [Nat.le_log2 (Nat.mul_pos hm₁ hm₂).ne']
      calc 2 ^ 104 = 2 ^ m₁.log2 * 2 ^ m₂.log2 := by rw [hlog₁, hlog₂]; norm_num
        _ ≤ m₁ * m₂ := Nat.mul_le_mul (Nat.log2_self_le hm₁.ne') (Nat.log2_self_le hm₂.ne')
    exact atLeastOne_round (by omega) (by omega)

/-! ## Quotients -/

theorem stands_fraction (m₁ : ℕ) {m₂ : ℕ} (hm₂ : 0 < m₂) :
    Stands (.ofMantissaAndAccuracy (m₁ / m₂) (accuracyOfFraction (m₁ % m₂) m₂)) (m₁ / m₂ : ℚ) := by
  have hdivisor : (0 : ℚ) < m₂ := by exact_mod_cast hm₂
  have hquotient : (m₁ / m₂ : ℚ) = (m₁ / m₂ : ℕ) + (m₁ % m₂ : ℕ) / m₂ := by
    have hdivision : (m₁ : ℚ) = m₂ * (m₁ / m₂ : ℕ) + (m₁ % m₂ : ℕ) := by
      exact_mod_cast (Nat.div_add_mod m₁ m₂).symm
    field_simp
    exact hdivision
  have hbelow : ((m₁ % m₂ : ℕ) : ℚ) / m₂ < 1 := by
    rw [div_lt_one hdivisor]
    exact_mod_cast Nat.mod_lt m₁ hm₂
  rw [hquotient, accuracyOfFraction]
  generalize m₁ % m₂ = r at *
  split_ifs with hzero
  · simp [hzero, Stands, ExtendedMantissa.ofMantissaAndAccuracy]
  have hpos : (0 : ℚ) < r / m₂ := div_pos (by exact_mod_cast Nat.pos_of_ne_zero hzero) hdivisor
  rcases lt_trichotomy (2 * r) m₂ with hless | hhalf | hmore
  · rw [Nat.compare_eq_lt.2 hless]
    have hr : (r / m₂ : ℚ) < 1 / 2 := by
      rw [div_lt_div_iff₀ hdivisor two_pos]
      exact_mod_cast (by omega : r * 2 < 1 * m₂)
    exact ⟨by linarith, by linarith⟩
  · rw [Nat.compare_eq_eq.2 hhalf]
    have hr : (r / m₂ : ℚ) = 1 / 2 := by
      rw [div_eq_div_iff hdivisor.ne' two_ne_zero]
      exact_mod_cast (by omega : r * 2 = 1 * m₂)
    exact congrArg _ hr
  · rw [Nat.compare_eq_gt.2 hmore]
    have hr : 1 / 2 < (r / m₂ : ℚ) := by
      rw [div_lt_div_iff₀ two_pos hdivisor]
      exact_mod_cast (by omega : 1 * m₂ < r * 2)
    exact ⟨by linarith, by linarith⟩

theorem bounded_divFinite (s₁ s₂ : Sign) {m₁ m₂ : ℕ} {e₁ e₂ : ℤ} (hm₁ : 0 < m₁) (hm₂ : 0 < m₂)
    (h : (m₁ : ℚ) * 2 ^ e₁ ≤ 2 ^ K * (m₂ * 2 ^ e₂)) (hK : -1074 ≤ K) :
    Bounded K (div Format.binary64 (.finite s₁ m₁ e₁ hm₁) (.finite s₂ m₂ e₂ hm₂)) := by
  have hdivisor : (0 : ℚ) < m₂ := by exact_mod_cast hm₂
  have htarget : Format.binary64.targetExponent (totalExponent m₁ e₁ - totalExponent m₂ e₂) ≤ K := by
    have hlog₂ : (m₂ : ℚ) < 2 ^ (m₂.log2 + 1 : ℤ) := by exact_mod_cast Nat.lt_log2_self
    have hlog₁ : m₁.log2 + e₁ ≤ K + (m₂.log2 + e₂) := by
      refine log2_add_le hm₁.ne' (h.trans_lt ?_)
      calc (2 : ℚ) ^ K * (m₂ * 2 ^ e₂) < 2 ^ K * (2 ^ (m₂.log2 + 1 : ℤ) * 2 ^ e₂) := by gcongr
        _ = 2 ^ (K + (m₂.log2 + e₂) + 1) := by
          rw [← zpow_add₀ two_ne_zero, ← zpow_add₀ two_ne_zero]
          congr 1
          omega
    rw [targetExponent_binary64, totalExponent, totalExponent]
    omega
  simp only [div, divCore]
  generalize Format.binary64.targetExponent (totalExponent m₁ e₁ - totalExponent m₂ e₂) = t at *
  refine bounded_round _ (stands_fraction _ hm₂) ?_ ((min_le_right _ _).trans htarget) hK
  have hsize := decreaseExponent_size_of_le m₁ (min_le_left (e₁ - e₂) t)
  simp only [decreaseExponent] at hsize
  rw [div_mul_eq_mul_div, hsize, div_le_iff₀ hdivisor, zpow_sub₀ two_ne_zero, ← mul_div_assoc,
    div_le_iff₀ (by positivity), mul_assoc]
  exact h

theorem bounded_div (hf : Bounded K f) (hg : AtLeastOne g) (hK : -1074 ≤ K) :
    Bounded K (div Format.binary64 f g) := by
  obtain ⟨s₁, rfl⟩ | ⟨s₁, m₁, e₁, hm₁, rfl⟩ := hf.zero_or_finite <;>
    obtain rfl | ⟨m₂, e₂, hm₂, rfl, hlog, he⟩ := hg.infinity_or_finite
  · trivial
  · trivial
  · trivial
  · refine bounded_divFinite s₁ _ hm₁ hm₂ (hf.2.trans (le_mul_of_one_le_right (by positivity) ?_)) hK
    have hpower : (2 : ℚ) ^ m₂.log2 ≤ m₂ := by exact_mod_cast Nat.log2_self_le hm₂.ne'
    calc (1 : ℚ) ≤ 2 ^ (52 + e₂) := one_le_zpow₀ one_le_two (by omega)
      _ = 2 ^ m₂.log2 * 2 ^ e₂ := by rw [hlog, zpow_add₀ two_ne_zero]; rfl
      _ ≤ m₂ * 2 ^ e₂ := by gcongr

theorem nonneg_div (hf : Bounded K f) (hf' : Nonneg f) (hg : AtLeastOne g) :
    Nonneg (div Format.binary64 f g) := by
  obtain ⟨s₁, rfl⟩ | ⟨s₁, m₁, e₁, hm₁, rfl⟩ := hf.zero_or_finite <;>
    obtain rfl | ⟨m₂, e₂, hm₂, rfl, -⟩ := hg.infinity_or_finite
  · trivial
  · trivial
  · trivial
  · obtain rfl : s₁ = .positive := hf'
    exact nonneg_round

/-! ## Roots -/

theorem stands_root (m : ℕ) : ∃ x : ℚ, x < m.sqrt + 1 ∧
    Stands (.ofMantissaAndAccuracy m.sqrt (if m - m.sqrt * m.sqrt = 0 then .exact
      else .inexact (if m - m.sqrt * m.sqrt ≤ m.sqrt then .lt else .gt))) x := by
  split_ifs
  · exact ⟨m.sqrt, by linarith, rfl⟩
  · exact ⟨m.sqrt + 1 / 4, by linarith, by constructor <;> linarith⟩
  · exact ⟨m.sqrt + 3 / 4, by linarith, by constructor <;> linarith⟩

theorem root_size {x : ℚ} {m : ℕ} {u : ℤ} (hm : 0 < m) (hx : x < m.sqrt + 1)
    (h : (m : ℚ) * 2 ^ (2 * u) ≤ 2 ^ K) (hK : 2 ≤ K) : x * 2 ^ u ≤ 2 ^ K := by
  have hroot : (1 : ℚ) ≤ m.sqrt := by exact_mod_cast Nat.sqrt_pos.2 hm
  have hsquare : (m.sqrt : ℚ) ^ 2 ≤ m := by exact_mod_cast Nat.sqrt_le' m
  have hless : x * 2 ^ u ≤ 2 * m.sqrt * 2 ^ u := by
    gcongr
    linarith
  have hdouble : (2 : ℚ) ^ (2 * u) = (2 ^ u) ^ 2 := by rw [zpow_mul', zpow_ofNat]
  refine hless.trans ((sq_le_sq₀ (by positivity) (by positivity)).1 ?_)
  calc (2 * (m.sqrt : ℚ) * 2 ^ u) ^ 2 = 4 * ((m.sqrt : ℚ) ^ 2 * 2 ^ (2 * u)) := by
        rw [hdouble]
        ring
    _ ≤ 4 * ((m : ℚ) * 2 ^ (2 * u)) := by gcongr
    _ ≤ 4 * 2 ^ K := by gcongr
    _ = 2 ^ (K + 2) := by
        rw [zpow_add₀ two_ne_zero, zpow_ofNat]
        ring
    _ ≤ 2 ^ (K + K) := (zpow_le_zpow_iff_right₀ one_lt_two).2 (by omega)
    _ = (2 ^ K) ^ 2 := by rw [zpow_add₀ two_ne_zero, sq]

theorem bounded_sqrt (hf : Bounded K f) (hf' : Nonneg f) (hK : 2 ≤ K) :
    Bounded K (sqrt Format.binary64 f) := by
  obtain ⟨s, rfl⟩ | ⟨s, m, e, hm, rfl⟩ := hf.zero_or_finite
  · trivial
  · obtain rfl : s = .positive := hf'
    have htarget : Format.binary64.targetExponent ((totalExponent m e + 1).ediv 2) ≤ K := by
      have hlog : m.log2 + e ≤ K :=
        log2_add_le hm.ne' (hf.2.trans_lt ((zpow_lt_zpow_iff_right₀ one_lt_two).2 (lt_add_one K)))
      change Format.binary64.targetExponent ((totalExponent m e + 1) / 2) ≤ K
      rw [targetExponent_binary64, totalExponent]
      omega
    simp only [sqrt, sqrtCore]
    generalize Format.binary64.targetExponent ((totalExponent m e + 1).ediv 2) = t at *
    have hhalf : 2 * min (e.ediv 2) t ≤ e := by
      change 2 * min (e / 2) t ≤ e
      omega
    have hsize := decreaseExponent_size_of_le m hhalf
    have hpos : 0 < m <<< (e - 2 * min (e.ediv 2) t).toNat := by
      rw [Nat.shiftLeft_eq]
      positivity
    obtain ⟨x, hx, hstands⟩ := stands_root (m <<< (e - 2 * min (e.ediv 2) t).toNat)
    refine bounded_round _ hstands (root_size hpos hx ?_ hK) ((min_le_right _ _).trans htarget)
      (by omega)
    exact hsize.trans_le hf.2

end unpacked

end BenchLedger.Floating
