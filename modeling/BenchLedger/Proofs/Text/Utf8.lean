import BenchLedger.Text.Utf8
import Mathlib.Algebra.Group.Nat.Defs
import Mathlib.Tactic.SplitIfs

/-!
# Decoding and encoding

`decode_append_ascii`: an ASCII byte ends whatever character is open and stands for itself, so the
bytes before it and the bytes after it are decoded as if they stood alone. `decode_encode`: decoding
undoes encoding. Both rest on `Partial.Proper`, which holds of every character that a byte opens:
the byte that it awaits is not ASCII, and neither is the character that it becomes.
-/

namespace BenchLedger.Text.Utf8

/-! ## Open characters -/

/-- What is known of every open character: the least byte that may follow, and the least code point
that it can become, lie above ASCII. -/
structure Partial.Proper (p : Partial) : Prop where
  low : 0x80 ≤ p.low.toNat
  codePoint : 0x80 ≤ (p.bits * 64 + (p.low.toNat - 0x80)) * 64 ^ p.more

/-- A decoder holds no character or a proper one. -/
def Proper (held : Option Partial) : Prop := ∀ p, held = some p → p.Proper

theorem proper_none : Proper none := by
  intro p hp
  cases hp

theorem lead_ascii {b : UInt8} (h : b < 0x80) : lead b = .whole (Char.ofNat b.toNat) := if_pos h

theorem ascii_of_lead_whole {b : UInt8} {c : Char} (h : lead b = .whole c) :
    b < 0x80 ∧ c = Char.ofNat b.toNat := by
  simp only [lead] at h
  split_ifs at h with hascii
  cases h
  exact ⟨hascii, rfl⟩

theorem proper_of_lead_opens {b : UInt8} {p : Partial} (h : lead b = .opens p) : p.Proper := by
  have hmax := b.toNat_lt
  simp only [lead, UInt8.lt_iff_toNat_lt, UInt8.reduceToNat, ← UInt8.toNat_inj] at h
  split_ifs at h
  all_goals
    cases h
    constructor <;> simp <;> omega

theorem proper_start (b : UInt8) : Proper (start b).2 := by
  intro p hp
  simp only [start] at hp
  cases hlead : lead b with
  | whole c => simp [hlead] at hp
  | opens q =>
    simp only [hlead, Option.some.injEq] at hp
    exact hp ▸ proper_of_lead_opens hlead
  | stray => simp [hlead] at hp

theorem Partial.Proper.le_extended {p : Partial} (hp : p.Proper) {b : UInt8} (hb : p.low ≤ b) :
    0x80 ≤ (p.bits * 64 + (b.toNat - 0x80)) * 64 ^ p.more := by
  have hlow := UInt8.le_iff_toNat_le.1 hb
  calc 0x80 ≤ (p.bits * 64 + (p.low.toNat - 0x80)) * 64 ^ p.more := hp.codePoint
    _ ≤ (p.bits * 64 + (b.toNat - 0x80)) * 64 ^ p.more := Nat.mul_le_mul_right _ (by omega)

theorem proper_step {held : Option Partial} (hheld : Proper held) (b : UInt8) :
    Proper (step held b).2 := by
  cases held with
  | none => exact proper_start b
  | some p =>
    simp only [step]
    split
    · rename_i hfits
      cases hmore : p.more with
      | zero => exact proper_none
      | succ more =>
        have hle := (hheld p rfl).le_extended hfits.1
        rintro q hq
        cases hq
        refine ⟨by simp, ?_⟩
        rw [hmore, Nat.pow_succ] at hle
        simp only [UInt8.reduceToNat, Nat.sub_self, Nat.add_zero, Nat.mul_assoc]
        rwa [Nat.mul_comm 64]
    · exact proper_start b

/-! ## ASCII bytes -/

theorem step_ascii {held : Option Partial} (hheld : Proper held) {b : UInt8} (hb : b < 0x80) :
    step held b = (decodeFrom held [] ++ [Char.ofNat b.toNat], none) := by
  have hstart : start b = ([Char.ofNat b.toNat], none) := by simp [start, lead_ascii hb]
  cases held with
  | none => simpa [step, decodeFrom] using hstart
  | some p =>
    have hlow := (hheld p rfl).low
    have hnot : ¬(p.low ≤ b ∧ b ≤ p.high) := by
      rintro ⟨hle, -⟩
      rw [UInt8.le_iff_toNat_le] at hle
      simp only [UInt8.lt_iff_toNat_lt, UInt8.reduceToNat] at hb
      omega
    simp [step, if_neg hnot, hstart, decodeFrom]

theorem decodeFrom_append_ascii {held : Option Partial} (hheld : Proper held) {b : UInt8}
    (hb : b < 0x80) (xs ys : List UInt8) :
    decodeFrom held (xs ++ b :: ys) =
      decodeFrom held xs ++ Char.ofNat b.toNat :: decodeFrom none ys := by
  induction xs generalizing held with
  | nil => simp [decodeFrom, step_ascii hheld hb]
  | cons x xs ih => simp [decodeFrom, ih (proper_step hheld x)]

theorem decode_append_ascii {b : UInt8} (hb : b < 0x80) (xs ys : List UInt8) :
    decode (xs ++ b :: ys) = decode xs ++ Char.ofNat b.toNat :: decode ys :=
  decodeFrom_append_ascii proper_none hb xs ys

theorem toNat_charOfNat (n : Nat) : (Char.ofNat n).toNat = n ∨ (Char.ofNat n).toNat = 0 := by
  by_cases hn : n.isValidChar
  · left
    rw [Char.ofNat, dif_pos hn]
    rfl
  · right
    rw [Char.ofNat, dif_neg hn]
    rfl

theorem mem_start_ascii {b : UInt8} {c : Char} (hc : c.toNat < 0x80) (h : c ∈ (start b).1) :
    b < 0x80 ∧ c = Char.ofNat b.toNat := by
  simp only [start] at h
  cases hlead : lead b with
  | whole d =>
    simp only [hlead, List.mem_singleton] at h
    exact h ▸ ascii_of_lead_whole hlead
  | opens p => simp [hlead] at h
  | stray =>
    simp only [hlead, List.mem_singleton] at h
    subst h
    exact absurd hc (by decide)

theorem mem_step_ascii {held : Option Partial} (hheld : Proper held) {b : UInt8} {c : Char}
    (hc : c.toNat < 0x80) (hnul : c.toNat ≠ 0) (h : c ∈ (step held b).1) :
    b < 0x80 ∧ c = Char.ofNat b.toNat := by
  cases held with
  | none => exact mem_start_ascii hc h
  | some p =>
    simp only [step] at h
    split at h
    · rename_i hfits
      have hle := (hheld p rfl).le_extended hfits.1
      cases hmore : p.more with
      | zero =>
        rw [hmore, Nat.pow_zero, Nat.mul_one] at hle
        simp only [hmore, List.mem_singleton] at h
        generalize p.bits * 64 + (b.toNat - 0x80) = n at hle h
        subst h
        rcases toNat_charOfNat n with heq | heq
        · omega
        · exact absurd heq hnul
      | succ more => simp [hmore] at h
    · rcases List.mem_cons.1 h with rfl | h
      · exact absurd hc (by decide)
      · exact mem_start_ascii hc h

theorem mem_decodeFrom_ascii {held : Option Partial} (hheld : Proper held) {bs : List UInt8}
    {c : Char} (hc : c.toNat < 0x80) (hnul : c.toNat ≠ 0) (h : c ∈ decodeFrom held bs) :
    ∃ b ∈ bs, c = Char.ofNat b.toNat ∧ b < 0x80 := by
  induction bs generalizing held with
  | nil =>
    cases held with
    | none => simp [decodeFrom] at h
    | some p =>
      rw [decodeFrom, List.mem_singleton] at h
      subst h
      exact absurd hc (by decide)
  | cons b bs ih =>
    rw [decodeFrom, List.mem_append] at h
    rcases h with h | h
    · obtain ⟨hb, heq⟩ := mem_step_ascii hheld hc hnul h
      exact ⟨b, by simp, heq, hb⟩
    · obtain ⟨x, hx, heq⟩ := ih (proper_step hheld b) h
      exact ⟨x, by simp [hx], heq⟩

theorem mem_decode_ascii {bs : List UInt8} {c : Char} (hc : c.toNat < 0x80) (hnul : c.toNat ≠ 0)
    (h : c ∈ decode bs) : UInt8.ofNat c.toNat ∈ bs := by
  obtain ⟨b, hb, rfl, hascii⟩ := mem_decodeFrom_ascii proper_none hc hnul h
  rcases toNat_charOfNat b.toNat with heq | heq
  · rw [heq]
    simpa using hb
  · exact absurd heq hnul

/-! ## Encoding -/

theorem toNat_byte {n : Nat} (h : n < 0x100) : (UInt8.ofNat n).toNat = n :=
  UInt8.toNat_ofNat_of_lt' h

theorem start_two {n : Nat} (h : 2 ≤ n) (h' : n < 0x20) :
    start (UInt8.ofNat (n + 0xC0)) = ([], some ⟨0, 0x80, 0xBF, n⟩) := by
  have hb : (UInt8.ofNat (n + 0xC0)).toNat = n + 0xC0 := toNat_byte (by omega)
  simp only [start, lead, UInt8.lt_iff_toNat_lt, UInt8.reduceToNat, hb]
  rw [if_neg (by omega), if_neg (by omega), if_pos (by omega)]
  simp

theorem start_three {n : Nat} (h : n < 0x10) :
    start (UInt8.ofNat (n + 0xE0)) =
      ([], some ⟨1, if n = 0 then 0xA0 else 0x80, if n = 13 then 0x9F else 0xBF, n⟩) := by
  have hb : (UInt8.ofNat (n + 0xE0)).toNat = n + 0xE0 := toNat_byte (by omega)
  simp only [start, lead, UInt8.lt_iff_toNat_lt, ← UInt8.toNat_inj, UInt8.reduceToNat, hb]
  rw [if_neg (by omega), if_neg (by omega), if_neg (by omega), if_pos (by omega)]
  simp

theorem start_four {n : Nat} (h : n < 5) :
    start (UInt8.ofNat (n + 0xF0)) =
      ([], some ⟨2, if n = 0 then 0x90 else 0x80, if n = 4 then 0x8F else 0xBF, n⟩) := by
  have hb : (UInt8.ofNat (n + 0xF0)).toNat = n + 0xF0 := toNat_byte (by omega)
  simp only [start, lead, UInt8.lt_iff_toNat_lt, ← UInt8.toNat_inj, UInt8.reduceToNat, hb]
  rw [if_neg (by omega), if_neg (by omega), if_neg (by omega), if_neg (by omega),
    if_pos (by omega)]
  simp

theorem step_continuation {p : Partial} {n : Nat} (hn : n < 0x40) (hlow : p.low.toNat ≤ n + 0x80)
    (hhigh : n + 0x80 ≤ p.high.toNat) :
    step (some p) (UInt8.ofNat (n + 0x80)) =
      match p.more with
      | 0 => ([Char.ofNat (p.bits * 64 + n)], none)
      | more + 1 => ([], some ⟨more, 0x80, 0xBF, p.bits * 64 + n⟩) := by
  have hb : (UInt8.ofNat (n + 0x80)).toNat = n + 0x80 := toNat_byte (by omega)
  have hfits : p.low ≤ UInt8.ofNat (n + 0x80) ∧ UInt8.ofNat (n + 0x80) ≤ p.high := by
    simp only [UInt8.le_iff_toNat_le, hb]
    exact ⟨hlow, hhigh⟩
  calc step (some p) (UInt8.ofNat (n + 0x80))
    _ = match p.more with
      | 0 => ([Char.ofNat (p.bits * 64 + ((UInt8.ofNat (n + 0x80)).toNat - 0x80))], none)
      | more + 1 =>
        ([], some ⟨more, 0x80, 0xBF, p.bits * 64 + ((UInt8.ofNat (n + 0x80)).toNat - 0x80)⟩) :=
      if_pos hfits
    _ = match p.more with
      | 0 => ([Char.ofNat (p.bits * 64 + n)], none)
      | more + 1 => ([], some ⟨more, 0x80, 0xBF, p.bits * 64 + n⟩) := by
      rw [hb, Nat.add_sub_cancel]

theorem decodeFrom_encodeChar (c : Char) (bs : List UInt8) :
    decodeFrom none (String.utf8EncodeChar c ++ bs) = c :: decodeFrom none bs := by
  have hc : Char.ofNat c.val.toNat = c := Char.ofNat_toNat c
  have hvalid : c.val.toNat < 0xD800 ∨ 0xDFFF < c.val.toNat ∧ c.val.toNat < 0x110000 := c.valid
  simp only [String.utf8EncodeChar]
  generalize c.val.toNat = v at hc hvalid
  split_ifs with h1 h2 h3
  · have hb : (UInt8.ofNat v).toNat = v := toNat_byte (by omega)
    have hascii : UInt8.ofNat v < 0x80 := by
      rw [UInt8.lt_iff_toNat_lt, hb]
      exact Nat.lt_succ_of_le h1
    simp [decodeFrom, step_ascii proper_none hascii, hb, hc]
  · have hlead : v / 64 % 0x20 = v / 64 := by omega
    have hbits : v / 64 * 64 + v % 0x40 = v := by omega
    simp only [hlead, List.cons_append, List.nil_append, decodeFrom]
    rw [step, start_two (by omega) (by omega),
      step_continuation (by omega) (by simp) (by simp; omega)]
    simp only [hbits, hc, List.cons_append, List.nil_append]
  · have hlead : v / 4096 % 0x10 = v / 4096 := by omega
    have hlow : v / 4096 = 0 → 0x20 ≤ v / 64 % 0x40 := by omega
    have hhigh : v / 4096 = 13 → v / 64 % 0x40 < 0x20 := by omega
    have hbits : (v / 4096 * 64 + v / 64 % 0x40) * 64 + v % 0x40 = v := by omega
    simp only [hlead, List.cons_append, List.nil_append, decodeFrom]
    rw [step, start_three (by omega),
      step_continuation (by omega) (by split_ifs <;> simp <;> omega)
        (by split_ifs <;> simp <;> omega)]
    simp only
    rw [step_continuation (by omega) (by simp) (by simp; omega)]
    simp only [hbits, hc, List.cons_append, List.nil_append]
  · have hlead : v / 262144 % 0x08 = v / 262144 := by omega
    have hlow : v / 262144 = 0 → 0x10 ≤ v / 4096 % 0x40 := by omega
    have hhigh : v / 262144 = 4 → v / 4096 % 0x40 < 0x10 := by omega
    have hbits :
        ((v / 262144 * 64 + v / 4096 % 0x40) * 64 + v / 64 % 0x40) * 64 + v % 0x40 = v := by
      omega
    simp only [hlead, List.cons_append, List.nil_append, decodeFrom]
    rw [step, start_four (by omega),
      step_continuation (by omega) (by split_ifs <;> simp <;> omega)
        (by split_ifs <;> simp <;> omega)]
    simp only
    rw [step_continuation (by omega) (by simp) (by simp; omega)]
    simp only
    rw [step_continuation (by omega) (by simp) (by simp; omega)]
    simp only [hbits, hc, List.cons_append, List.nil_append]

theorem decode_encode_append (cs : List Char) (bs : List UInt8) :
    decode (encode cs ++ bs) = cs ++ decode bs := by
  induction cs with
  | nil => simp [encode]
  | cons c cs ih =>
    have hcons : encode (c :: cs) = String.utf8EncodeChar c ++ encode cs := rfl
    rw [hcons, List.append_assoc, decode, decodeFrom_encodeChar]
    exact congrArg (c :: ·) ih

theorem decode_encode (cs : List Char) : decode (encode cs) = cs := by
  simpa [decode_nil] using decode_encode_append cs []

theorem byte_notMem_encode {cs : List Char} {c : Char} (hc : c.toNat < 0x80) (h : c ∉ cs) :
    UInt8.ofNat c.toNat ∉ encode cs := by
  intro hmem
  obtain ⟨front, back, hsplit⟩ := List.append_of_mem hmem
  have hascii : UInt8.ofNat c.toNat < 0x80 := by
    rw [UInt8.lt_iff_toNat_lt, toNat_byte (by omega)]
    exact hc
  have hdecoded := decode_encode cs
  rw [hsplit, decode_append_ascii hascii, toNat_byte (by omega), Char.ofNat_toNat] at hdecoded
  exact h (hdecoded ▸ by simp)

end BenchLedger.Text.Utf8
