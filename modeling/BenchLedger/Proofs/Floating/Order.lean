import BenchLedger.Proofs.Floating.Magnitude

/-!
# Numbers without a sign

A decimal denotes a number, perhaps an infinite one, without a minus sign (`signFree_ofScientific`),
however many digits it has. Such numbers are in the order of their bits, read as whole numbers
(`SignFree.lt_iff`): what the bits stand for is told by `Decodes`, in which a finite number of the
mantissa `m` at the place `k` has the bits `k * 2 ^ 52 + m`, whether its leading digit is written or
not.
-/

namespace BenchLedger.Floating

open Float.Model (Format UnpackedFloat)
open Float.Model.UnpackedFloat

/-! ## No operation on decimals brings a sign -/

/-- A number that carries no minus sign and has no digit below the least place. -/
def Unsigned : UnpackedFloat → Prop
  | .notANumber => False
  | .infinity s => s = .positive
  | .zero s => s = .positive
  | .finite s _ e _ => s = .positive ∧ -1074 ≤ e

section unsigned

variable {f g : UnpackedFloat} {m : ℕ} {e n K : ℤ} {acc : Accuracy}

theorem Unsigned.packs (h : Unsigned f) :
    Packs f (UnpackedFloat.unpack Format.binary64 (UnpackedFloat.pack Format.binary64 f)) :=
  packs_unpack fun _ _ _ _ hf => (hf ▸ h : Unsigned (.finite _ _ _ _)).2

theorem Packs.unsigned (hpacks : Packs f g) (h : Unsigned f) : Unsigned g := by
  cases hpacks with
  | nan | infinity | zero | normal => exact h
  | above | vanishing => exact h.1
  | small => exact ⟨h.1, le_rfl⟩

theorem unsigned_round : Unsigned (roundWithAccuracy Format.binary64 .positive m e acc) := by
  rw [roundWithAccuracy]
  dsimp only
  split_ifs
  · rfl
  · refine ⟨rfl, ?_⟩
    rw [shift_exponent, place]
    omega

theorem unsigned_normalize (hn : 0 ≤ n) : Unsigned (normalize Format.binary64 n e .positive) := by
  rw [UnpackedFloat.normalize]
  split
  · rename_i hneg
    exact absurd (Int.compare_eq_lt.1 hneg) (Int.not_lt.2 hn)
  · rfl
  · exact unsigned_round

theorem unsigned_div (hf : Bounded K f) (hf' : Unsigned f) (hg : AtLeastOne g) :
    Unsigned (div Format.binary64 f g) := by
  obtain ⟨s, rfl⟩ | ⟨s, m₁, e₁, hm₁, rfl⟩ := hf.zero_or_finite <;>
    obtain rfl | ⟨m₂, e₂, hm₂, rfl, -⟩ := hg.infinity_or_finite
  · obtain rfl : s = .positive := hf'
    rfl
  · obtain rfl : s = .positive := hf'
    rfl
  · obtain rfl : s = .positive := hf'.1
    rfl
  · obtain rfl : s = .positive := hf'.1
    exact unsigned_round

theorem unsigned_ofScientific (m : ℕ) (e : ℤ) :
    Unsigned (ofScientific Format.binary64 m e) := by
  rw [ofScientific]
  split_ifs
  · rfl
  · rfl
  · rfl
  · exact unsigned_round
  · exact unsigned_round

end unsigned

/-! ## The order of the bits -/

/-- What bits without a sign stand for, by the whole number that they make. The leading digit of a
mantissa is missing only at the least place. -/
inductive Decodes : ℕ → UnpackedFloat → Prop
  | zero : Decodes 0 (.zero .positive)
  | finite {k m : ℕ} (hm : 0 < m) (hlt : m < 2 ^ 53) (hk : k ≤ 2045) (hlead : k = 0 ∨ 2 ^ 52 ≤ m) :
      Decodes (k * 2 ^ 52 + m) (.finite .positive m (k - 1074) hm)
  | infinity : Decodes (2047 * 2 ^ 52) (.infinity .positive)

theorem toNat_packComponents (s : Sign) (exponent : BitVec 11) (mantissa : BitVec 52) :
    (packComponents Format.binary64 s exponent mantissa).toNat =
      (s.toBitVec.toNat * 2 ^ 11 + exponent.toNat) * 2 ^ 52 + mantissa.toNat := by
  change (s.toBitVec ++ exponent ++ mantissa).toNat = _
  rw [BitVec.toNat_append, BitVec.toNat_append, ← Nat.shiftLeft_add_eq_or_of_lt exponent.isLt,
    ← Nat.shiftLeft_add_eq_or_of_lt mantissa.isLt, Nat.shiftLeft_eq, Nat.shiftLeft_eq]

theorem exists_components (b : BitVec Format.binary64.numBits) :
    ∃ s exponent mantissa, b = packComponents Format.binary64 s exponent mantissa := by
  have hwidth : b.toNat < 2 ^ 64 := b.isLt
  have hparts (s : Sign) (hs : s.toBitVec.toNat = b.toNat / 2 ^ 63) :
      b = packComponents Format.binary64 s (.ofNat 11 (b.toNat / 2 ^ 52)) (.ofNat 52 b.toNat) := by
    refine BitVec.eq_of_toNat_eq ?_
    rw [toNat_packComponents, hs, BitVec.toNat_ofNat, BitVec.toNat_ofNat]
    omega
  rcases Nat.lt_or_ge b.toNat (2 ^ 63) with hlow | hhigh
  · exact ⟨.positive, _, _, hparts _ (Nat.div_eq_of_lt hlow).symm⟩
  · refine ⟨.negative, _, _, hparts _ ?_⟩
    change 1 = _
    omega

section positive

variable {exponent : BitVec 11} {mantissa : BitVec 52}

theorem toNat_positive (exponent : BitVec 11) (mantissa : BitVec 52) :
    (packComponents Format.binary64 .positive exponent mantissa).toNat =
      exponent.toNat * 2 ^ 52 + mantissa.toNat := by
  have hsign : Sign.positive.toBitVec.toNat = 0 := rfl
  rw [toNat_packComponents, hsign, Nat.zero_mul, Nat.zero_add]

theorem decodes_subnormal (h : 0 < mantissa.toNat) :
    Decodes (packComponents Format.binary64 .positive 0#11 mantissa).toNat
      (.finite .positive mantissa.toNat (-1074) h) := by
  have hmantissa : mantissa.toNat < 2 ^ 52 := mantissa.isLt
  have hform := Decodes.finite (k := 0) h (by omega) (by omega) (.inl rfl)
  rw [toNat_positive]
  simpa using hform

theorem toNat_lead (mantissa : BitVec 52) : (1#1 ++ mantissa).toNat = 2 ^ 52 + mantissa.toNat := by
  rw [BitVec.toNat_append, ← Nat.shiftLeft_add_eq_or_of_lt mantissa.isLt, Nat.shiftLeft_eq]
  rfl

theorem decodes_normal (hones : exponent ≠ 2047#11) (hzero : exponent ≠ 0#11)
    (h : 0 < (1#1 ++ mantissa).toNat) :
    Decodes (packComponents Format.binary64 .positive exponent mantissa).toNat
      (.finite .positive (1#1 ++ mantissa).toNat (exponent.toNat - 1075) h) := by
  have hmantissa : mantissa.toNat < 2 ^ 52 := mantissa.isLt
  have hexponent : exponent.toNat < 2 ^ 11 := exponent.isLt
  have hones : exponent.toNat ≠ 2047 := fun heq => hones (BitVec.eq_of_toNat_eq heq)
  have hzero : exponent.toNat ≠ 0 := fun heq => hzero (BitVec.eq_of_toNat_eq heq)
  have hlead := toNat_lead mantissa
  -- The leading digit of the mantissa carries into the place.
  have hbits : (packComponents Format.binary64 .positive exponent mantissa).toNat =
      (exponent.toNat - 1) * 2 ^ 52 + (1#1 ++ mantissa).toNat := by
    rw [toNat_positive, hlead]
    omega
  have hplace : (exponent.toNat - 1075 : ℤ) = (exponent.toNat - 1 : ℕ) - 1074 := by omega
  rw [hbits, hplace]
  exact .finite h (by omega) (by omega) (.inr (by omega))

end positive

theorem decodes_unpack {b : BitVec Format.binary64.numBits}
    (h : Unsigned (UnpackedFloat.unpack Format.binary64 b)) :
    Decodes b.toNat (UnpackedFloat.unpack Format.binary64 b) := by
  obtain ⟨s, exponent, mantissa, rfl⟩ := exists_components b
  by_cases hones : exponent = 2047#11
  · subst hones
    obtain rfl : mantissa = 0#52 := by
      by_contra hne
      simp [UnpackedFloat.unpack, hne, Unsigned] at h
    have hunpack : UnpackedFloat.unpack Format.binary64
        (packComponents Format.binary64 s 2047#11 0#52) = .infinity s := unpack_packedInfinity s
    rw [hunpack] at h ⊢
    obtain rfl : s = .positive := h
    exact .infinity
  by_cases hzero : exponent = 0#11
  · subst hzero
    rcases Nat.eq_zero_or_pos mantissa.toNat with hnone | hsome
    · obtain rfl : mantissa = 0#52 := BitVec.eq_of_toNat_eq hnone
      have hunpack : UnpackedFloat.unpack Format.binary64
          (packComponents Format.binary64 s 0#11 0#52) = .zero s := unpack_packedZero
      rw [hunpack] at h ⊢
      obtain rfl : s = .positive := h
      exact .zero
    · rw [unpack_subnormal s hsome] at h ⊢
      obtain rfl : s = .positive := h.1
      exact decodes_subnormal hsome
  · have hlead : 0 < (1#1 ++ mantissa).toNat := by
      rw [toNat_lead]
      omega
    rw [unpack_normal s hones hzero hlead] at h ⊢
    obtain rfl : s = .positive := h.1
    exact decodes_normal hones hzero hlead

theorem Decodes.lt {n : ℕ} {f : UnpackedFloat} (h : Decodes n f) : n < 2 ^ 63 := by
  cases h <;> omega

theorem Decodes.compare_eq {n n' : ℕ} {f f' : UnpackedFloat} (h : Decodes n f) (h' : Decodes n' f') :
    f.compare f' = some (compare n n') := by
  cases h with
  | zero =>
    cases h' with
    | zero | infinity => rfl
    | finite hm =>
      rw [Nat.compare_eq_lt.2 (by omega)]
      rfl
  | @finite k m hm hlt hk hlead =>
    cases h' with
    | zero =>
      rw [Nat.compare_eq_gt.2 (by omega)]
      rfl
    | @finite k' m' hm' hlt' hk' hlead' =>
      change some ((compare ((k : ℤ) - 1074) (k' - 1074)).then (compare m m')) = _
      rcases lt_trichotomy k k' with hless | rfl | hmore
      · have hbits : k * 2 ^ 52 + m < k' * 2 ^ 52 + m' := by omega
        rw [Int.compare_eq_lt.2 (by omega), Nat.compare_eq_lt.2 hbits]
        rfl
      · rw [Int.compare_eq_eq.2 rfl]
        simp only [Nat.compare_eq_ite_lt, Nat.add_lt_add_iff_left, Ordering.then]
      · have hbits : k' * 2 ^ 52 + m' < k * 2 ^ 52 + m := by omega
        rw [Int.compare_eq_gt.2 (by omega), Nat.compare_eq_gt.2 hbits]
        rfl
    | infinity =>
      rw [Nat.compare_eq_lt.2 (by omega)]
      rfl
  | infinity =>
    cases h' with
    | zero | infinity => rfl
    | finite hm' hlt' hk' hlead' =>
      rw [Nat.compare_eq_gt.2 (by omega)]
      rfl

/-! ## Floating-point numbers without a sign -/

/-- A number, perhaps infinite, that carries no minus sign. -/
def SignFree (x : Float) : Prop := Unsigned x.toModel.unpack

section signFree

variable {x y : Float}

theorem Unsigned.kept {f : UnpackedFloat} (h : Unsigned f) : SignFree (.ofModel (.pack f)) :=
  h.packs.unsigned h

theorem SignFree.decodes (h : SignFree x) : Decodes x.toBits.toNat x.toModel.unpack :=
  decodes_unpack h

theorem SignFree.isNaN (h : SignFree x) : x.isNaN = false := by
  change x.toModel.unpack.isNaN = false
  have hdecodes := h.decodes
  generalize x.toBits.toNat = n, x.toModel.unpack = f at hdecodes
  cases hdecodes <;> rfl

theorem SignFree.toBits_lt (h : SignFree x) : x.toBits.toNat < 2 ^ 63 := h.decodes.lt

theorem SignFree.lt_iff (hx : SignFree x) (hy : SignFree y) :
    x < y ↔ x.toBits.toNat < y.toBits.toNat := by
  change decide (x.toModel < y.toModel) = true ↔ _
  rw [decide_eq_true_iff]
  change (x.toModel.unpack.compare y.toModel.unpack == some .lt) = true ↔ _
  rw [hx.decodes.compare_eq hy.decodes, ← Nat.compare_eq_lt]
  simp

theorem SignFree.le_iff (hx : SignFree x) (hy : SignFree y) :
    x ≤ y ↔ x.toBits.toNat ≤ y.toBits.toNat := by
  change decide (x.toModel ≤ y.toModel) = true ↔ _
  rw [decide_eq_true_iff]
  change (x.toModel.unpack.compare y.toModel.unpack).any (·.isLE) = true ↔ _
  rw [hx.decodes.compare_eq hy.decodes, Option.any_some, Nat.isLE_compare]

theorem eq_of_bits (h : x.toBits.toNat = y.toBits.toNat) : x = y := by
  obtain ⟨⟨bits, hbits⟩⟩ := x
  obtain ⟨⟨bits', hbits'⟩⟩ := y
  obtain rfl : bits = bits' := UInt64.toNat_inj.1 h
  rfl

theorem signFree_toFloat (n : UInt64) : SignFree n.toFloat :=
  (unsigned_normalize (Int.natCast_nonneg n.toNat)).kept

theorem signFree_ofScientific (m p : ℕ) : SignFree (Float.ofScientific m true p) := by
  rw [Float.ofScientific]
  simp only [↓reduceIte, Int.negOfNat_eq]
  split_ifs with hfast
  · have hbounded := atMost_toFloat m.toUInt64
    exact (unsigned_div hbounded (signFree_toFloat _) (oneOrMore_power _)).kept
  · exact (unsigned_ofScientific m (-p)).kept

end signFree

end BenchLedger.Floating
