import BenchLedger.Proofs.Floating.Operations

/-!
# Magnitudes of floating-point numbers

Bounds by powers of two for the numbers that a program computes with. A number for which there is
such a bound is finite, and so is written in a document.
-/

namespace BenchLedger.Floating

open Float.Model (Format UnpackedFloat)
open Float.Model.UnpackedFloat

/-- A finite number of size at most `2 ^ K`. -/
def AtMost (K : ℤ) (x : Float) : Prop := Bounded K x.toModel.unpack

def NotNegative (x : Float) : Prop := Nonneg x.toModel.unpack

/-- A number that is at least one, perhaps infinite. -/
def OneOrMore (x : Float) : Prop := AtLeastOne x.toModel.unpack

section operations

variable {x y : Float} {J K : ℤ}

theorem Bounded.kept {f : UnpackedFloat} (h : Bounded K f) (hK : K ≤ 971) :
    AtMost K (.ofModel (.pack f)) := h.packs.bounded h hK

theorem AtMost.mono (h : AtMost J x) (hJK : J ≤ K) : AtMost K x := Bounded.mono h hJK

theorem AtMost.isFinite (h : AtMost K x) : x.isFinite = true := by
  change x.toModel.unpack.isFinite = true
  rw [AtMost] at h
  obtain ⟨s, hx⟩ | ⟨s, m, e, hm, hx⟩ := h.zero_or_finite
  · rw [hx]
    rfl
  · rw [hx]
    rfl

/-- A sum absorbs an item that is small enough. -/
theorem AtMost.add (hx : AtMost K x) (hy : AtMost (K - 53) y) (hK : -1022 ≤ K) (hK' : K ≤ 971) :
    AtMost K (x + y) := (bounded_add hx hy hK).kept hK'

theorem AtMost.sub (hx : AtMost (K - 53) x) (hy : AtMost K y) (hK : -1022 ≤ K) (hK' : K ≤ 971) :
    AtMost K (x - y) := (bounded_sub hx hy hK).kept hK'

theorem AtMost.mul (hx : AtMost J x) (hy : AtMost K y) (hJK : -1074 ≤ J + K) (hJK' : J + K ≤ 971) :
    AtMost (J + K) (x * y) := (bounded_mul hx hy hJK).kept hJK'

theorem AtMost.div (hx : AtMost K x) (hy : OneOrMore y) (hK : -1074 ≤ K) (hK' : K ≤ 971) :
    AtMost K (x / y) := (bounded_div hx hy hK).kept hK'

theorem AtMost.sqrt (hx : AtMost K x) (hx' : NotNegative x) (hK : 2 ≤ K) (hK' : K ≤ 971) :
    AtMost K x.sqrt := (bounded_sqrt hx hx' hK).kept hK'

theorem NotNegative.add (hx : AtMost K x) (hy : AtMost (K - 53) y) (hx' : NotNegative x)
    (hy' : NotNegative y) (hK : -1022 ≤ K) : NotNegative (x + y) :=
  (bounded_add hx hy hK).packs.nonneg (nonneg_add hx hy hx' hy')

theorem NotNegative.square (hx : AtMost K x) (hK : -1074 ≤ K + K) : NotNegative (x * x) :=
  (bounded_mul hx hx hK).packs.nonneg (nonneg_square _)

theorem NotNegative.div (hx : AtMost K x) (hx' : NotNegative x) (hy : OneOrMore y)
    (hK : -1074 ≤ K) : NotNegative (x / y) :=
  (bounded_div hx hy hK).packs.nonneg (nonneg_div hx hx' hy)

end operations

/-! ## Numbers from whole numbers and decimals -/

theorem unpack_negativeZero : (-0.0 : Float).toModel.unpack = .zero .negative := by
  rfl

theorem AtLeastOne.kept {f : UnpackedFloat} (h : AtLeastOne f) : OneOrMore (.ofModel (.pack f)) :=
  h.packs.atLeastOne h

theorem atMost_toFloat (n : UInt64) : AtMost 64 n.toFloat := by
  have hsize : (n.toNat : ℚ) ≤ 2 ^ 64 := by exact_mod_cast n.toNat_lt.le
  have hbounded : Bounded 64 (normalize Format.binary64 n.toNat 0 .positive) := by
    refine bounded_normalize _ ?_ (by norm_num)
    rw [Int.cast_natCast, abs_of_nonneg (by positivity), zpow_zero, mul_one]
    exact hsize.trans (le_add_of_nonneg_right (by positivity))
  exact hbounded.kept (by norm_num)

theorem oneOrMore_toFloat {n : UInt64} (hn : 0 < n.toNat) : OneOrMore n.toFloat :=
  (atLeastOne_normalize (n := n.toNat) (by omega)).kept

theorem oneOrMore_power {p : ℕ} (hp : p < Float.exactlyRepresentablePowersOfTen.size) :
    OneOrMore Float.exactlyRepresentablePowersOfTen[p] := by
  have hall : ∀ x ∈ Float.exactlyRepresentablePowersOfTen, AtLeastOne x.toModel.unpack := by
    decide +kernel
  exact hall _ (Array.getElem_mem hp)

theorem OneOrMore.mul {x y : Float} (hx : OneOrMore x) (hy : OneOrMore y) : OneOrMore (x * y) :=
  (atLeastOne_mul hx hy).kept

theorem atLeastOne_ofScientific {n : ℕ} (hn : 0 < n) :
    AtLeastOne (ofScientific Format.binary64 n 0) := by
  have hbits : Format.binary64.mantissaBits = 53 := rfl
  obtain ⟨k, hk⟩ : ∃ k : ℕ, (n <<< 53 * 10 ^ Int.toNat 0).log2 = k + 53 := by
    rw [Int.toNat_zero, pow_zero, mul_one]
    exact ⟨n.log2, log2_shiftLeft hn.ne' 53⟩
  have hlarge : ¬(0 : ℤ) > 2 ^ Format.binary64.exponentBits := by simp
  have hsmall : ¬(0 : ℤ) < -(2 ^ Format.binary64.exponentBits + n.log2) := by simp
  rw [ofScientific, dif_neg hn.ne', if_neg hlarge, if_neg hsmall, if_pos le_rfl, UnpackedFloat.mul,
    hbits]
  refine atLeastOne_round ?_ ?_ <;> rw [hk] <;> omega

theorem oneOrMore_ofNat {n : ℕ} (hn : 0 < n) : OneOrMore (Float.ofNat n) := by
  change OneOrMore (Float.ofScientific n false 0)
  rw [Float.ofScientific]
  simp only [Bool.false_eq_true, ↓reduceIte]
  split_ifs with hfast
  · have hcast : n.toUInt64.toNat = n := by
      rw [UInt64.toNat_ofNat']
      omega
    have hwhole : OneOrMore n.toUInt64.toFloat := oneOrMore_toFloat (by rwa [hcast])
    have hpower := oneOrMore_power (p := 0) (by decide)
    exact hwhole.mul hpower
  · exact (atLeastOne_ofScientific hn).kept

section decimals

variable {m p d k : ℕ}

theorem bounded_ofScientific (h : m < 10 ^ (d + p)) (hd : 10 ^ d ≤ 2 ^ k) :
    Bounded k (ofScientific Format.binary64 m (-p)) := by
  have hsize : (m : ℚ) ≤ 2 ^ (k : ℤ) * 10 ^ p := by
    rw [pow_add] at h
    exact_mod_cast h.le.trans (Nat.mul_le_mul_right _ hd)
  rw [ofScientific]
  split_ifs with hzero hlarge hsmall hwhole
  · trivial
  · have hpos : (0 : ℤ) ≤ 2 ^ Format.binary64.exponentBits := by simp
    omega
  · trivial
  · obtain rfl : p = 0 := by omega
    have hbits : Format.binary64.mantissaBits = 53 := rfl
    have hscaled : ((m <<< 53 * 10 ^ (-((0 : ℕ) : ℤ)).toNat : ℕ) : ℚ) * 2 ^ (-((53 : ℕ) : ℤ) + 0) ≤
        2 ^ (k : ℤ) := by
      have hscale : ((2 ^ 53 : ℕ) : ℚ) * 2 ^ (-((53 : ℕ) : ℤ) + 0) = 1 := by norm_num
      have hone : 10 ^ (-((0 : ℕ) : ℤ)).toNat = 1 := rfl
      rw [hone, mul_one, Nat.shiftLeft_eq, Nat.cast_mul, mul_assoc, hscale, mul_one]
      rwa [pow_zero, mul_one] at hsize
    rw [UnpackedFloat.mul, hbits]
    -- Named, since a product of literals is unfolded where it is matched.
    generalize m <<< 53 * 10 ^ (-((0 : ℕ) : ℤ)).toNat = n at hscaled ⊢
    exact bounded_roundExact _ hscaled (by omega) (by omega)
  · have hexponent : (-(-(p : ℤ))).toNat = p := by omega
    refine bounded_divFinite _ _ _ _ ?_ (by omega)
    rw [hexponent, zpow_zero, mul_one, mul_one]
    exact_mod_cast hsize

theorem atMost_ofScientific (h : m < 10 ^ (d + p)) (hd : 10 ^ d ≤ 2 ^ k) (hk : 64 ≤ k)
    (hk' : k ≤ 971) : AtMost k (Float.ofScientific m true p) := by
  rw [Float.ofScientific]
  simp only [↓reduceIte, Int.negOfNat_eq]
  split_ifs with hfast
  · refine AtMost.mono (J := 64) ?_ (by omega)
    exact (atMost_toFloat _).div (oneOrMore_power _) (by norm_num) (by norm_num)
  · exact (bounded_ofScientific h hd).kept (by omega)

end decimals

end BenchLedger.Floating
