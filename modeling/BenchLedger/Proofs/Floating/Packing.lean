import BenchLedger.Json.Number
import BenchLedger.Proofs.Floating.Rounding

/-!
# Packed numbers

A number that was packed into its 64 bits is unpacked as itself, except that one above the range
becomes infinite, and one that lacks digits without lying at the least place is taken for a smaller
one (`packs_unpack`). What is bounded, one or more, or not negative stays so. A number is written
in a document exactly if it is finite.
-/

namespace BenchLedger.Floating

open Float.Model Float.Model.UnpackedFloat

/-- What a number is after it was packed and unpacked. -/
inductive Packs : UnpackedFloat → UnpackedFloat → Prop
  | nan : Packs .notANumber .notANumber
  | infinity (s : Sign) : Packs (.infinity s) (.infinity s)
  | zero (s : Sign) : Packs (.zero s) (.zero s)
  | above (s : Sign) {m : ℕ} {e : ℤ} (hm : 0 < m) (he : 971 < e) :
      Packs (.finite s m e hm) (.infinity s)
  | normal (s : Sign) {m : ℕ} {e : ℤ} (hm : 0 < m) (hlog : m.log2 = 52) (he : -1074 ≤ e) :
      Packs (.finite s m e hm) (.finite s m e hm)
  | small (s : Sign) {m : ℕ} {e : ℤ} (hm : 0 < m) (hlog : m.log2 ≠ 52) (hsmall : 0 < m % 2 ^ 52) :
      Packs (.finite s m e hm) (.finite s (m % 2 ^ 52) (-1074) hsmall)
  | vanishing (s : Sign) {m : ℕ} {e : ℤ} (hm : 0 < m) (hlog : m.log2 ≠ 52) :
      Packs (.finite s m e hm) (.zero s)

section components

variable (s : Sign) {exponent : BitVec 11} {mantissa : BitVec 52}

theorem unpack_packedInfinity :
    UnpackedFloat.unpack Format.binary64 (packedInfinity Format.binary64 s) = .infinity s := by
  simp [UnpackedFloat.unpack, packedInfinity]

theorem unpack_subnormal (h : 0 < mantissa.toNat) : UnpackedFloat.unpack Format.binary64
    (packComponents Format.binary64 s 0#11 mantissa) = .finite s mantissa.toNat (-1074) h := by
  have hzero : mantissa ≠ 0#52 := by
    rintro rfl
    exact absurd h (by decide)
  have hbias : Format.binary64.exponentBias = 1023 := rfl
  simp [UnpackedFloat.unpack, hzero, hbias]

theorem unpack_normal (hones : exponent ≠ 2047#11) (hzero : exponent ≠ 0#11)
    (hpos : 0 < (1#1 ++ mantissa).toNat) :
    UnpackedFloat.unpack Format.binary64 (packComponents Format.binary64 s exponent mantissa) =
      .finite s (1#1 ++ mantissa).toNat (exponent.toNat - 1075) hpos := by
  have hbias : Format.binary64.exponentBias = 1023 := rfl
  simp [UnpackedFloat.unpack, hones, hzero, hbias]

end components

section finite

variable {m : ℕ} {e : ℤ}

theorem toNat_mantissa (hm : 0 < m) (hlog : m.log2 = 52) :
    (1#1 ++ BitVec.ofNat 52 m).toNat = m := by
  obtain ⟨hle, hlt⟩ := (Nat.log2_eq_iff hm.ne').1 hlog
  have hrest : m % 2 ^ 52 < 2 ^ 52 := Nat.mod_lt _ (Nat.two_pow_pos 52)
  rw [BitVec.toNat_append, BitVec.toNat_ofNat, BitVec.toNat_ofNat,
    ← Nat.shiftLeft_add_eq_or_of_lt hrest, Nat.shiftLeft_eq]
  omega

theorem toNat_exponent (he : -1074 ≤ e) (habove : e ≤ 971) :
    (BitVec.ofNat 11 (e + 1075).toNat).toNat = e + 1075 := by
  rw [BitVec.toNat_ofNat, Nat.mod_eq_of_lt (by omega)]
  omega

theorem unpack_pack_normal (s : Sign) (hm : 0 < m) (hlog : m.log2 = 52) (he : -1074 ≤ e)
    (habove : e ≤ 971) :
    UnpackedFloat.unpack Format.binary64 (packComponents Format.binary64 s
      (BitVec.ofNat 11 (e + 1075).toNat) (BitVec.ofNat 52 m)) = .finite s m e hm := by
  have hmantissa := toNat_mantissa hm hlog
  have hexponent := toNat_exponent he habove
  have hones : BitVec.ofNat 11 (e + 1075).toNat ≠ 2047#11 := by
    rw [ne_eq, ← BitVec.toNat_inj]
    change _ ≠ 2047
    omega
  have hzero : BitVec.ofNat 11 (e + 1075).toNat ≠ 0#11 := by
    rw [ne_eq, ← BitVec.toNat_inj]
    change _ ≠ 0
    omega
  rw [unpack_normal s hones hzero (hmantissa.symm ▸ hm)]
  simp only [hexponent, hmantissa, add_sub_cancel_right]

theorem biased_exponent : e + Format.binary64.exponentBias +
    Format.binary64.mantissaBitsWithoutImplicit = e + 1075 := by
  have hbias : Format.binary64.exponentBias = 1023 := rfl
  rw [hbias]
  push_cast
  ring

theorem packs_finite (s : Sign) (hm : 0 < m) (he : -1074 ≤ e) :
    Packs (.finite s m e hm) (UnpackedFloat.unpack Format.binary64
      (UnpackedFloat.pack Format.binary64 (.finite s m e hm))) := by
  rw [UnpackedFloat.pack]
  dsimp only
  rw [biased_exponent]
  split_ifs with habove hnormal
  · rw [unpack_packedInfinity]
    exact .above s hm (by change 2048 ≤ _ at habove; omega)
  · have hlog : m.log2 = 52 := Nat.succ.inj hnormal
    rw [unpack_pack_normal s hm hlog he (by change ¬ 2048 ≤ _ at habove; omega)]
    exact .normal s hm hlog he
  · have hlog : m.log2 ≠ 52 := fun h => hnormal (congrArg Nat.succ h)
    rcases Nat.eq_zero_or_pos (BitVec.ofNat 52 m).toNat with hnone | hsome
    · have hnone : BitVec.ofNat 52 m = 0#52 := BitVec.eq_of_toNat_eq hnone
      have hzero : UnpackedFloat.unpack Format.binary64
          (packComponents Format.binary64 s 0#11 0#52) = .zero s := unpack_packedZero
      rw [hnone, hzero]
      exact .vanishing s hm hlog
    · rw [unpack_subnormal s hsome]
      simp only [BitVec.toNat_ofNat] at hsome ⊢
      exact .small s hm hlog hsome

end finite

theorem packs_unpack {f : UnpackedFloat} (h : ∀ s m e hm, f = .finite s m e hm → -1074 ≤ e) :
    Packs f (UnpackedFloat.unpack Format.binary64 (UnpackedFloat.pack Format.binary64 f)) := by
  cases f with
  | notANumber =>
    rw [UnpackedFloat.pack, unpack_packedNaN]
    exact .nan
  | infinity s =>
    rw [UnpackedFloat.pack, unpack_packedInfinity]
    exact .infinity s
  | zero s =>
    rw [UnpackedFloat.pack, unpack_packedZero]
    exact .zero s
  | finite s m e hm => exact packs_finite s hm (h s m e hm rfl)

section kept

variable {f g : UnpackedFloat} {K : ℤ}

theorem Packs.bounded (hpacks : Packs f g) (h : Bounded K f) (hK : K ≤ 971) : Bounded K g := by
  cases hpacks with
  | nan => exact h
  | infinity s => exact h
  | zero s => exact h
  | above s hm he =>
    have hexponent := h.exponent_le
    omega
  | normal s hm hlog he => exact h
  | @small s m e hm hlog hsmall =>
    have hmantissa : ((m % 2 ^ 52 : ℕ) : ℚ) ≤ m := by exact_mod_cast Nat.mod_le _ _
    have hpower : (2 : ℚ) ^ (-1074 : ℤ) ≤ 2 ^ e := (zpow_le_zpow_iff_right₀ one_lt_two).2 h.1
    exact ⟨le_rfl, le_trans (by gcongr) h.2⟩
  | vanishing s hm hlog => trivial

theorem Packs.nonneg (hpacks : Packs f g) (h : Nonneg f) : Nonneg g := by
  cases hpacks with
  | normal s hm hlog he => exact h
  | small s hm hlog hsmall => exact h
  | _ => trivial

theorem Packs.atLeastOne (hpacks : Packs f g) (h : AtLeastOne f) : AtLeastOne g := by
  cases hpacks with
  | nan => exact h
  | infinity s => exact h
  | zero s => exact h
  | above s hm he => exact h.1
  | normal s hm hlog he => exact h
  | small s hm hlog hsmall => exact absurd h.2.1 hlog
  | vanishing s hm hlog => exact absurd h.2.1 hlog

theorem Bounded.packs (h : Bounded K f) :
    Packs f (UnpackedFloat.unpack Format.binary64 (UnpackedFloat.pack Format.binary64 f)) :=
  packs_unpack fun _ _ _ _ hf => (hf ▸ h : Bounded K (.finite _ _ _ _)).1

theorem AtLeastOne.packs (h : AtLeastOne f) :
    Packs f (UnpackedFloat.unpack Format.binary64 (UnpackedFloat.pack Format.binary64 f)) := by
  refine packs_unpack fun s m e hm hf => ?_
  obtain ⟨-, -, he⟩ : AtLeastOne (.finite s m e hm) := hf ▸ h
  omega

end kept

/-! ## Numbers in documents -/

theorem toNat_unpackExponent (b : BitVec Format.binary64.numBits) :
    (unpackExponent b).toNat = b.toNat / 2 ^ 52 % 2 ^ 11 := by
  rw [unpackExponent_def, BitVec.extractLsb'_toNat, Nat.shiftRight_eq_div_pow]

theorem isFinite_iff (x : Float) :
    x.isFinite = true ↔ x.toBits.toNat / 0x10000000000000 % 0x800 ≠ 2047 := by
  have hexponent := toNat_unpackExponent x.toModel.toBits.toBitVec
  change (UnpackedFloat.unpack Format.binary64 x.toModel.toBits.toBitVec).isFinite = true ↔
    ¬x.toModel.toBits.toBitVec.toNat / 2 ^ 52 % 2 ^ 11 = 2047
  rw [← hexponent, UnpackedFloat.unpack]
  generalize @unpackExponent Format.binary64 x.toModel.toBits.toBitVec = exponent
  have hones : exponent = -BitVec.ofNat Format.binary64.exponentBits 1 ↔ exponent.toNat = 2047 := by
    rw [← BitVec.toNat_inj]
    rfl
  dsimp only
  split_ifs with hall <;> rw [hones] at hall <;> simp [hall, UnpackedFloat.isFinite]

theorem isSome_numberText? (x : Float) : (Json.numberText? x).isSome = x.isFinite := by
  rw [Bool.eq_iff_iff, isFinite_iff, Json.numberText?, Decimal.Binary64.ofFloat,
    Decimal.Binary64.ofBits]
  split_ifs <;> simp_all

end BenchLedger.Floating
