import BenchLedger.Proofs.Text.Utf8
import Mathlib.Data.List.Induction

/-!
# What is replaced

Decoding arbitrary bytes is told without a decoder: `lossy_iff`. Where a character stands at the
start of the bytes, it is read. Where none does, the longest start of the bytes with which the
encoding of some character begins is replaced by one U+FFFD, or a single byte if there is no such
start (`Replaced`).

The proof rests on what an open character stands for. The decoder holds an open character exactly
after the bytes that begin an encoding and do not complete it (`Opened`), and a byte fits exactly if
these bytes still begin an encoding with it (`fits_iff`).
-/

namespace BenchLedger.Text.Utf8

open String (utf8EncodeChar)

/-! ## Decoding without a decoder -/

/-- The encoding of some character begins with these bytes. -/
def Begins (part : List UInt8) : Prop := ∃ c, part <+: utf8EncodeChar c

/-- No character stands at the start of `part ++ rest`, and `part` is the longest start of these
bytes that begins one, or a single byte if none does. -/
structure Replaced (part rest : List UInt8) : Prop where
  ne_nil : part ≠ []
  noCharacter : ∀ c, ¬utf8EncodeChar c <+: part ++ rest
  begins : Begins part ∨ part.length = 1
  longest : ∀ more, more ≠ [] → more <+: rest → ¬Begins (part ++ more)

/-- The text of bytes, with U+FFFD for what is no part of a character. -/
inductive Lossy : List UInt8 → List Char → Prop
  | nil : Lossy [] []
  | character (c : Char) {rest : List UInt8} {cs : List Char} (h : Lossy rest cs) :
      Lossy (utf8EncodeChar c ++ rest) (c :: cs)
  | replaced {part rest : List UInt8} {cs : List Char} (hpart : Replaced part rest)
      (h : Lossy rest cs) : Lossy (part ++ rest) (replacement :: cs)

theorem Begins.of_append {part more : List UInt8} (h : Begins (part ++ more)) : Begins part := by
  obtain ⟨c, hc⟩ := h
  exact ⟨c, (List.prefix_append part more).trans hc⟩

/-! ## Encodings of code points -/

theorem toNat_charOfNat_of_isValidChar {v : Nat} (h : v.isValidChar) :
    (Char.ofNat v).val.toNat = v := by
  rw [Char.ofNat, dif_pos h]
  rfl

theorem byte_eq {n : Nat} {b : UInt8} (h : n = b.toNat) : UInt8.ofNat n = b := by
  rw [h, UInt8.ofNat_toNat]

theorem encodeChar_ascii {b : UInt8} (h : b < 0x80) :
    utf8EncodeChar (Char.ofNat b.toNat) = [b] := by
  simp only [UInt8.lt_iff_toNat_lt, UInt8.reduceToNat] at h
  have hvalid : b.toNat.isValidChar := .inl (by omega)
  simp only [utf8EncodeChar, toNat_charOfNat_of_isValidChar hvalid]
  rw [if_pos (by omega), byte_eq rfl]

theorem encodeChar_two {b₀ b₁ : UInt8} (h₀ : 0xC2 ≤ b₀.toNat ∧ b₀.toNat < 0xE0)
    (h₁ : 0x80 ≤ b₁.toNat ∧ b₁.toNat ≤ 0xBF) :
    utf8EncodeChar (Char.ofNat ((b₀.toNat - 0xC0) * 64 + (b₁.toNat - 0x80))) = [b₀, b₁] := by
  have hvalid : ((b₀.toNat - 0xC0) * 64 + (b₁.toNat - 0x80)).isValidChar := .inl (by omega)
  simp only [utf8EncodeChar, toNat_charOfNat_of_isValidChar hvalid]
  rw [if_neg (by omega), if_pos (by omega), byte_eq (b := b₀) (by omega),
    byte_eq (b := b₁) (by omega)]

theorem encodeChar_three {b₀ b₁ b₂ : UInt8} (h₀ : 0xE0 ≤ b₀.toNat ∧ b₀.toNat < 0xF0)
    (h₁ : 0x80 ≤ b₁.toNat ∧ b₁.toNat ≤ 0xBF) (hlow : b₀.toNat = 0xE0 → 0xA0 ≤ b₁.toNat)
    (hhigh : b₀.toNat = 0xED → b₁.toNat ≤ 0x9F) (h₂ : 0x80 ≤ b₂.toNat ∧ b₂.toNat ≤ 0xBF) :
    utf8EncodeChar (Char.ofNat
      (((b₀.toNat - 0xE0) * 64 + (b₁.toNat - 0x80)) * 64 + (b₂.toNat - 0x80))) =
      [b₀, b₁, b₂] := by
  have hvalid : (((b₀.toNat - 0xE0) * 64 + (b₁.toNat - 0x80)) * 64 +
      (b₂.toNat - 0x80)).isValidChar := by
    simp only [Nat.isValidChar]
    omega
  simp only [utf8EncodeChar, toNat_charOfNat_of_isValidChar hvalid]
  rw [if_neg (by omega), if_neg (by omega), if_pos (by omega), byte_eq (b := b₀) (by omega),
    byte_eq (b := b₁) (by omega), byte_eq (b := b₂) (by omega)]

theorem encodeChar_four {b₀ b₁ b₂ b₃ : UInt8} (h₀ : 0xF0 ≤ b₀.toNat ∧ b₀.toNat < 0xF5)
    (h₁ : 0x80 ≤ b₁.toNat ∧ b₁.toNat ≤ 0xBF) (hlow : b₀.toNat = 0xF0 → 0x90 ≤ b₁.toNat)
    (hhigh : b₀.toNat = 0xF4 → b₁.toNat ≤ 0x8F) (h₂ : 0x80 ≤ b₂.toNat ∧ b₂.toNat ≤ 0xBF)
    (h₃ : 0x80 ≤ b₃.toNat ∧ b₃.toNat ≤ 0xBF) :
    utf8EncodeChar (Char.ofNat ((((b₀.toNat - 0xF0) * 64 + (b₁.toNat - 0x80)) * 64 +
      (b₂.toNat - 0x80)) * 64 + (b₃.toNat - 0x80))) = [b₀, b₁, b₂, b₃] := by
  have hvalid : ((((b₀.toNat - 0xF0) * 64 + (b₁.toNat - 0x80)) * 64 +
      (b₂.toNat - 0x80)) * 64 + (b₃.toNat - 0x80)).isValidChar := by
    simp only [Nat.isValidChar]
    omega
  simp only [utf8EncodeChar, toNat_charOfNat_of_isValidChar hvalid]
  rw [if_neg (by omega), if_neg (by omega), if_neg (by omega), byte_eq (b := b₀) (by omega),
    byte_eq (b := b₁) (by omega), byte_eq (b := b₂) (by omega), byte_eq (b := b₃) (by omega)]

/-! ## Open characters -/

/-- The byte may follow what an open character has so far. -/
def Partial.Fits (p : Partial) (b : UInt8) : Prop := p.low ≤ b ∧ b ≤ p.high

variable {part : List UInt8} {p q : Partial} {b : UInt8}

theorem step_of_fits (h : p.Fits b) :
    step (some p) b = match p.more with
      | 0 => ([Char.ofNat (p.bits * 64 + (b.toNat - 0x80))], none)
      | more + 1 => ([], some ⟨more, 0x80, 0xBF, p.bits * 64 + (b.toNat - 0x80)⟩) :=
  if_pos h

theorem decodeFrom_of_not_fits (h : ¬p.Fits b) (bs : List UInt8) :
    decodeFrom (some p) (b :: bs) = replacement :: decodeFrom none (b :: bs) := by
  have hstep : step (some p) b = (replacement :: (start b).1, (start b).2) := if_neg h
  rw [decodeFrom, decodeFrom, hstep, step]
  rfl

/-- The bytes `part` complete nothing and leave the character `p` open. -/
inductive Opened : List UInt8 → Partial → Prop
  | first {b : UInt8} {p : Partial} (h : lead b = .opens p) : Opened [b] p
  | next {part : List UInt8} {p : Partial} {b : UInt8} {more : Nat} (h : Opened part p)
      (hmore : p.more = more + 1) (hfits : p.Fits b) :
      Opened (part ++ [b]) ⟨more, 0x80, 0xBF, p.bits * 64 + (b.toNat - 0x80)⟩

theorem opens_cases (h : lead b = .opens p) :
    (0xC2 ≤ b.toNat ∧ b.toNat < 0xE0) ∧ p = ⟨0, 0x80, 0xBF, b.toNat - 0xC0⟩ ∨
    (0xE0 ≤ b.toNat ∧ b.toNat < 0xF0) ∧ p = ⟨1, if b.toNat = 0xE0 then 0xA0 else 0x80,
      if b.toNat = 0xED then 0x9F else 0xBF, b.toNat - 0xE0⟩ ∨
    (0xF0 ≤ b.toNat ∧ b.toNat < 0xF5) ∧ p = ⟨2, if b.toNat = 0xF0 then 0x90 else 0x80,
      if b.toNat = 0xF4 then 0x8F else 0xBF, b.toNat - 0xF0⟩ := by
  simp only [lead, UInt8.lt_iff_toNat_lt, UInt8.reduceToNat, ← UInt8.toNat_inj] at h
  rcases Nat.lt_or_ge b.toNat 0x80 with h₁ | h₁
  · rw [if_pos h₁] at h
    cases h
  rw [if_neg (Nat.not_lt.2 h₁)] at h
  rcases Nat.lt_or_ge b.toNat 0xC2 with h₂ | h₂
  · rw [if_pos h₂] at h
    cases h
  rw [if_neg (Nat.not_lt.2 h₂)] at h
  rcases Nat.lt_or_ge b.toNat 0xE0 with h₃ | h₃
  · rw [if_pos h₃] at h
    cases h
    exact .inl ⟨⟨h₂, h₃⟩, rfl⟩
  rw [if_neg (Nat.not_lt.2 h₃)] at h
  rcases Nat.lt_or_ge b.toNat 0xF0 with h₄ | h₄
  · rw [if_pos h₄] at h
    cases h
    exact .inr (.inl ⟨⟨h₃, h₄⟩, rfl⟩)
  rw [if_neg (Nat.not_lt.2 h₄)] at h
  rcases Nat.lt_or_ge b.toNat 0xF5 with h₅ | h₅
  · rw [if_pos h₅] at h
    cases h
    exact .inr (.inr ⟨⟨h₄, h₅⟩, rfl⟩)
  · rw [if_neg (Nat.not_lt.2 h₅)] at h
    cases h

theorem Opened.ne_nil (h : Opened part p) : part ≠ [] := by
  cases h <;> simp

theorem Opened.of_snoc (h : Opened (part ++ [b]) q) :
    part = [] ∧ lead b = .opens q ∨
      ∃ p more, Opened part p ∧ p.more = more + 1 ∧ p.Fits b ∧
        q = ⟨more, 0x80, 0xBF, p.bits * 64 + (b.toNat - 0x80)⟩ := by
  generalize hwhole : part ++ [b] = whole at h
  cases h with
  | @first b' _ hlead =>
    have hsplit : part ++ [b] = [] ++ [b'] := hwhole
    obtain ⟨rfl, hb⟩ := List.append_inj' hsplit rfl
    obtain rfl : b = b' := by simpa using hb
    exact .inl ⟨rfl, hlead⟩
  | @next part' p b' more hopened hmore hfits =>
    obtain ⟨rfl, hb⟩ := List.append_inj' hwhole rfl
    obtain rfl : b = b' := by simpa using hb
    exact .inr ⟨p, more, hopened, hmore, hfits, rfl⟩

theorem Opened.lead_eq (h : Opened [b] p) : lead b = .opens p := by
  have hsnoc : Opened ([] ++ [b]) p := h
  rcases hsnoc.of_snoc with ⟨-, hlead⟩ | ⟨_, _, hopened, -⟩
  · exact hlead
  · exact absurd rfl hopened.ne_nil

theorem Opened.more_lt (h : Opened part p) : p.more < 3 := by
  induction h with
  | first hlead => rcases opens_cases hlead with ⟨-, rfl⟩ | ⟨-, rfl⟩ | ⟨-, rfl⟩ <;> simp
  | next _ hmore _ ih =>
    rw [hmore] at ih
    exact Nat.lt_of_succ_lt ih

theorem Opened.unique (hp : Opened part p) (hq : Opened part q) : p = q := by
  induction hp generalizing q with
  | first hlead =>
    have hlead' := hq.lead_eq
    rw [hlead, Lead.opens.injEq] at hlead'
    exact hlead'
  | @next part p b more hopened hmore hfits ih =>
    rcases hq.of_snoc with ⟨rfl, -⟩ | ⟨p', more', hopened', hmore', -, rfl⟩
    · exact absurd rfl hopened.ne_nil
    · obtain rfl := ih hopened'
      obtain rfl : more = more' := by omega
      rfl

theorem Opened.of_append_cons {more : List UInt8} (h : Opened (part ++ b :: more) q)
    (hne : part ≠ []) : ∃ p, Opened part p ∧ p.Fits b ∧ p.more ≠ 0 := by
  induction more using List.reverseRecOn generalizing q with
  | nil =>
    rcases h.of_snoc with ⟨rfl, -⟩ | ⟨p, n, hopened, hmore, hfits, -⟩
    · exact absurd rfl hne
    · exact ⟨p, hopened, hfits, by omega⟩
  | append_singleton more last ih =>
    rw [← List.cons_append, ← List.append_assoc] at h
    rcases h.of_snoc with ⟨hnil, -⟩ | ⟨p, _, hopened, -⟩
    · simp at hnil
    · exact ih hopened

theorem Opened.exists_lead {more : List UInt8} (h : Opened (b :: more) q) :
    ∃ p, lead b = .opens p := by
  cases more with
  | nil => exact ⟨q, h.lead_eq⟩
  | cons next more =>
    have hsplit : Opened ([b] ++ next :: more) q := h
    obtain ⟨p, hp, -⟩ := hsplit.of_append_cons (by simp)
    exact ⟨p, hp.lead_eq⟩

theorem Opened.decodeFrom_eq (h : Opened part p) (bs : List UInt8) :
    decodeFrom none (part ++ bs) = decodeFrom (some p) bs := by
  induction h generalizing bs with
  | @first b p hlead => simp [decodeFrom, step, start, hlead]
  | @next part p b more hopened hmore hfits ih =>
    rw [List.append_assoc, List.singleton_append, ih, decodeFrom, step_of_fits hfits, hmore]
    rfl

/-! ## Open characters and encodings -/

/-- The second byte of a character is a continuation byte, with a narrower bound after some first
bytes. -/
theorem fits_restricted {P Q : Prop} [Decidable P] [Decidable Q] {x y : UInt8} {more bits : Nat}
    (hx : 0x80 ≤ x) (hy : y ≤ 0xBF)
    (h : (⟨more, if P then x else 0x80, if Q then y else 0xBF, bits⟩ : Partial).Fits b) :
    (0x80 ≤ b.toNat ∧ b.toNat ≤ 0xBF) ∧ (P → x.toNat ≤ b.toNat) ∧ (Q → b.toNat ≤ y.toNat) := by
  simp only [Partial.Fits, UInt8.le_iff_toNat_le, UInt8.reduceToNat] at hx hy h
  obtain ⟨hlow, hhigh⟩ := h
  refine ⟨⟨?_, ?_⟩, fun hP => ?_, fun hQ => ?_⟩
  · split at hlow
    · omega
    · exact hlow
  · split at hhigh
    · omega
    · exact hhigh
  · rwa [if_pos hP] at hlow
  · rwa [if_pos hQ] at hhigh

theorem Opened.encodeChar_eq (h : Opened part p) (hmore : p.more = 0) (hfits : p.Fits b) :
    utf8EncodeChar (Char.ofNat (p.bits * 64 + (b.toNat - 0x80))) = part ++ [b] := by
  simp only [Partial.Fits, UInt8.le_iff_toNat_le] at hfits
  cases h with
  | @first b₀ _ hlead =>
    rcases opens_cases hlead with ⟨h₀, rfl⟩ | ⟨-, rfl⟩ | ⟨-, rfl⟩
    · exact encodeChar_two h₀ hfits
    · cases hmore
    · cases hmore
  | @next part p b₁ more hopened hmore₁ hfits₁ =>
    obtain rfl : more = 0 := hmore
    cases hopened with
    | @first b₀ _ hlead =>
      rcases opens_cases hlead with ⟨-, rfl⟩ | ⟨h₀, rfl⟩ | ⟨-, rfl⟩
      · cases hmore₁
      · obtain ⟨h₁, hlow, hhigh⟩ := fits_restricted (by decide) (by decide) hfits₁
        exact encodeChar_three h₀ h₁ hlow hhigh hfits
      · cases hmore₁
    | @next part p b₂ more hopened hmore₂ hfits₂ =>
      obtain rfl : more = 1 := hmore₁
      simp only [Partial.Fits, UInt8.le_iff_toNat_le] at hfits₁
      cases hopened with
      | @first b₀ _ hlead =>
        rcases opens_cases hlead with ⟨-, rfl⟩ | ⟨-, rfl⟩ | ⟨h₀, rfl⟩
        · cases hmore₂
        · cases hmore₂
        · obtain ⟨h₁, hlow, hhigh⟩ := fits_restricted (by decide) (by decide) hfits₂
          exact encodeChar_four h₀ h₁ hlow hhigh hfits₁ hfits
      | @next part p b₃ more hopened hmore₃ hfits₃ =>
        obtain rfl : more = 2 := hmore₂
        have hlt := hopened.more_lt
        omega

theorem Opened.low_le_high (h : Opened part p) : p.low ≤ p.high := by
  cases h with
  | first hlead =>
    rcases opens_cases hlead with ⟨-, rfl⟩ | ⟨-, rfl⟩ | ⟨-, rfl⟩
    · exact (by decide : (0x80 : UInt8) ≤ 0xBF)
    · dsimp only
      split_ifs with hfirst hlast
      · omega
      all_goals decide
    · dsimp only
      split_ifs with hfirst hlast
      · omega
      all_goals decide
  | next => exact (by decide : (0x80 : UInt8) ≤ 0xBF)

theorem Opened.begins (h : Opened part p) : Begins part := by
  -- By induction on the bytes still awaited: the least byte that fits goes on or completes.
  have hfits : p.Fits p.low := ⟨UInt8.le_refl _, h.low_le_high⟩
  obtain ⟨more, hmore⟩ : ∃ more, p.more = more := ⟨_, rfl⟩
  induction more generalizing part p with
  | zero =>
    refine ⟨Char.ofNat (p.bits * 64 + (p.low.toNat - 0x80)), ?_⟩
    rw [h.encodeChar_eq hmore hfits]
    exact List.prefix_append part [p.low]
  | succ more ih =>
    have hnext := Opened.next h hmore hfits
    exact (ih hnext ⟨UInt8.le_refl _, hnext.low_le_high⟩ rfl).of_append

theorem Opened.begins_snoc (h : Opened part p) (hfits : p.Fits b) : Begins (part ++ [b]) := by
  cases hmore : p.more with
  | zero =>
    have hencode := h.encodeChar_eq hmore hfits
    exact ⟨_, [], (List.append_nil _).trans hencode.symm⟩
  | succ more => exact (Opened.next h hmore hfits).begins

theorem lead_of_start (h : start b = ([], some p)) : lead b = .opens p := by
  cases hlead : lead b with
  | whole c => simp [start, hlead] at h
  | opens q =>
    simp only [start, hlead, Prod.mk.injEq, Option.some.injEq, true_and] at h
    rw [h]
  | stray => simp [start, hlead] at h

theorem fits_continuation {n : Nat} (hn : n < 0x40) (hlow : p.low.toNat ≤ n + 0x80)
    (hhigh : n + 0x80 ≤ p.high.toNat) : p.Fits (UInt8.ofNat (n + 0x80)) := by
  rw [Partial.Fits, UInt8.le_iff_toNat_le, UInt8.le_iff_toNat_le, toNat_byte (by omega)]
  exact ⟨hlow, hhigh⟩

theorem encodeChar_cases (c : Char) : (∃ b, b < 0x80 ∧ utf8EncodeChar c = [b]) ∨
    ∃ part p b, utf8EncodeChar c = part ++ [b] ∧ Opened part p ∧ p.more = 0 ∧ p.Fits b := by
  have hvalid : c.val.toNat < 0xD800 ∨ 0xDFFF < c.val.toNat ∧ c.val.toNat < 0x110000 := c.valid
  simp only [utf8EncodeChar]
  generalize c.val.toNat = v at hvalid
  split_ifs with h1 h2 h3
  · refine .inl ⟨_, ?_, rfl⟩
    rw [UInt8.lt_iff_toNat_lt, toNat_byte (by omega)]
    exact Nat.lt_succ_of_le h1
  · have hlead : v / 64 % 0x20 = v / 64 := by omega
    have hopen := Opened.first (lead_of_start (start_two (n := v / 64) (by omega) (by omega)))
    rw [hlead]
    exact .inr ⟨_, _, _, rfl, hopen, rfl, fits_continuation (by omega) (by simp) (by simp; omega)⟩
  · have hlead : v / 4096 % 0x10 = v / 4096 := by omega
    have hlow : v / 4096 = 0 → 0x20 ≤ v / 64 % 0x40 := by omega
    have hhigh : v / 4096 = 13 → v / 64 % 0x40 < 0x20 := by omega
    have hopen := Opened.first (lead_of_start (start_three (n := v / 4096) (by omega)))
    have hopen' := hopen.next rfl (fits_continuation (n := v / 64 % 0x40) (by omega)
      (by split_ifs <;> simp <;> omega) (by split_ifs <;> simp <;> omega))
    rw [hlead]
    exact .inr ⟨_, _, _, rfl, hopen', rfl, fits_continuation (by omega) (by simp) (by simp; omega)⟩
  · have hlead : v / 262144 % 0x08 = v / 262144 := by omega
    have hlow : v / 262144 = 0 → 0x10 ≤ v / 4096 % 0x40 := by omega
    have hhigh : v / 262144 = 4 → v / 4096 % 0x40 < 0x10 := by omega
    have hopen := Opened.first (lead_of_start (start_four (n := v / 262144) (by omega)))
    have hopen' := hopen.next rfl (fits_continuation (n := v / 4096 % 0x40) (by omega)
      (by split_ifs <;> simp <;> omega) (by split_ifs <;> simp <;> omega))
    have hopen'' := hopen'.next rfl (fits_continuation (n := v / 64 % 0x40) (by omega)
      (by simp) (by simp; omega))
    rw [hlead]
    exact .inr ⟨_, _, _, rfl, hopen'', rfl, fits_continuation (by omega) (by simp) (by simp; omega)⟩

theorem eq_encodeChar_or_opened {c : Char} (hne : part ≠ []) (h : part <+: utf8EncodeChar c) :
    part = utf8EncodeChar c ∨ ∃ p, Opened part p := by
  obtain ⟨more, hmore⟩ := h
  rcases encodeChar_cases c with ⟨b, -, hb⟩ | ⟨whole, p, b, hwhole, hopened, -, -⟩
  · left
    rw [hb] at hmore ⊢
    rcases List.append_eq_singleton_iff.1 hmore with ⟨hnil, -⟩ | ⟨hpart, -⟩
    · exact absurd hnil hne
    · exact hpart
  · rw [hwhole] at hmore ⊢
    rcases List.eq_nil_or_concat more with rfl | ⟨front, last, rfl⟩
    · left
      rw [← hmore, List.append_nil]
    · right
      rw [List.concat_eq_append, ← List.append_assoc] at hmore
      obtain ⟨rfl, -⟩ := List.append_inj' hmore rfl
      cases front with
      | nil => exact ⟨p, by simpa using hopened⟩
      | cons next front =>
        obtain ⟨q, hq, -⟩ := hopened.of_append_cons hne
        exact ⟨q, hq⟩

/-- A byte fits an open character exactly if an encoding still begins with it. -/
theorem Opened.fits_iff (h : Opened part p) : p.Fits b ↔ Begins (part ++ [b]) := by
  refine ⟨h.begins_snoc, fun ⟨c, hc⟩ => ?_⟩
  have hne : part ++ [b] ≠ [] := by simp
  rcases eq_encodeChar_or_opened hne hc with hwhole | ⟨q, hq⟩
  · rcases encodeChar_cases c with ⟨b', -, hb'⟩ | ⟨part', p', b', hsplit, hopened, -, hfits⟩
    · rw [hb', List.append_eq_singleton_iff] at hwhole
      simp [h.ne_nil] at hwhole
    · rw [hsplit] at hwhole
      obtain ⟨rfl, hb⟩ := List.append_inj' hwhole rfl
      obtain rfl : b = b' := by simpa using hb
      rwa [h.unique hopened]
  · obtain ⟨q', hq', hfits, -⟩ := hq.of_append_cons h.ne_nil
    rwa [h.unique hq']

theorem Opened.not_encodeChar_prefix (h : Opened part p) (c : Char) :
    ¬utf8EncodeChar c <+: part := by
  rintro ⟨more, hmore⟩
  rcases encodeChar_cases c with ⟨b, hb, hc⟩ | ⟨part', p', b, hc, hopened, hlast, -⟩
  · rw [← hmore, hc, List.singleton_append] at h
    obtain ⟨q, hlead⟩ := h.exists_lead
    rw [lead_ascii hb] at hlead
    cases hlead
  · rw [hc, List.append_assoc, List.singleton_append] at hmore
    rw [← hmore] at h
    obtain ⟨q, hq, -, hawaits⟩ := h.of_append_cons hopened.ne_nil
    exact hawaits (hopened.unique hq ▸ hlast)

/-! ## The two ways to decode -/

theorem Opened.replaced {rest : List UInt8} (h : Opened part p)
    (hrest : ∀ b ∈ rest.head?, ¬p.Fits b) : Replaced part rest := by
  have hlongest : ∀ more, more ≠ [] → more <+: rest → ¬Begins (part ++ more) := by
    intro more hne hmore hbegins
    obtain ⟨b, more, rfl⟩ := List.exists_cons_of_ne_nil hne
    obtain ⟨rest, rfl⟩ := hmore
    rw [← List.singleton_append, ← List.append_assoc] at hbegins
    exact hrest b rfl (h.fits_iff.2 hbegins.of_append)
  refine ⟨h.ne_nil, fun c hc => ?_, .inl h.begins, hlongest⟩
  -- A character here would end inside `part`, which completes none, or make a longer start.
  rcases List.prefix_or_prefix_of_prefix hc (List.prefix_append part rest) with hin | hout
  · exact h.not_encodeChar_prefix c hin
  · obtain ⟨more, hmore⟩ := hout
    rw [← hmore, List.prefix_append_right_inj] at hc
    refine hlongest more ?_ hc ⟨c, hmore ▸ List.prefix_rfl⟩
    rintro rfl
    rw [List.append_nil] at hmore
    exact h.not_encodeChar_prefix c (hmore ▸ List.prefix_rfl)

theorem replaced_of_stray (h : lead b = .stray) (rest : List UInt8) : Replaced [b] rest := by
  have hbegins : ¬Begins [b] := by
    rintro ⟨c, hc⟩
    rcases eq_encodeChar_or_opened (by simp) hc with hwhole | ⟨p, hp⟩
    · rcases encodeChar_cases c with ⟨b', hascii, hb'⟩ | ⟨part, p, b', hsplit, hopened, -⟩
      · obtain rfl : b = b' := by simpa [hb'] using hwhole
        rw [lead_ascii hascii] at h
        cases h
      · rw [hsplit, eq_comm, List.append_eq_singleton_iff] at hwhole
        simp [hopened.ne_nil] at hwhole
    · rw [hp.lead_eq] at h
      cases h
  refine ⟨by simp, fun c hc => hbegins ?_, .inr rfl, fun more _ _ hmore => hbegins hmore.of_append⟩
  rcases List.prefix_or_prefix_of_prefix hc (List.prefix_append [b] rest) with hin | hout
  · have hlength : [b].length ≤ (utf8EncodeChar c).length := by
      rw [String.length_utf8EncodeChar]
      exact c.utf8Size_pos
    exact ⟨c, (hin.eq_of_length_le hlength) ▸ List.prefix_rfl⟩
  · exact ⟨c, hout⟩

/-- The decoder reads what follows an open character as it should, if it does so with less. -/
theorem lossy_opened {bs : List UInt8} (h : Opened part p)
    (hless : ∀ later : List UInt8, later.length ≤ bs.length → Lossy later (decode later)) :
    Lossy (part ++ bs) (decodeFrom (some p) bs) := by
  induction bs generalizing part p with
  | nil => exact .replaced (h.replaced (by simp)) .nil
  | cons b bs ih =>
    by_cases hfits : p.Fits b
    · have hbs := fun (later : List UInt8) hle => hless later (Nat.le_succ_of_le hle)
      rw [decodeFrom, step_of_fits hfits]
      cases hmore : p.more with
      | zero =>
        have hread := Lossy.character (Char.ofNat (p.bits * 64 + (b.toNat - 0x80)))
          (hbs bs (Nat.le_refl _))
        rw [h.encodeChar_eq hmore hfits, List.append_assoc] at hread
        exact hread
      | succ more =>
        have hread := ih (h.next hmore hfits) hbs
        rw [List.append_assoc] at hread
        exact hread
    · -- The byte that does not fit is no part of what is replaced: it is read again.
      rw [decodeFrom_of_not_fits hfits]
      refine .replaced (h.replaced fun b' hb' => ?_) (hless (b :: bs) (Nat.le_refl _))
      obtain rfl : b = b' := by simpa using hb'
      exact hfits

theorem lossy_decode (bytes : List UInt8) : Lossy bytes (decode bytes) := by
  match bytes with
  | [] => exact .nil
  | b :: bs =>
    have hless (later : List UInt8) (hle : later.length ≤ bs.length) : Lossy later (decode later) :=
      lossy_decode later
    cases hlead : lead b with
    | whole c =>
      obtain ⟨hascii, rfl⟩ := ascii_of_lead_whole hlead
      have hread := Lossy.character (Char.ofNat b.toNat) (hless bs (Nat.le_refl _))
      rw [encodeChar_ascii hascii] at hread
      simpa [decode, decodeFrom, step, start, hlead] using hread
    | opens p =>
      have hopened := Opened.first hlead
      have hread := lossy_opened hopened hless
      rwa [← hopened.decodeFrom_eq] at hread
    | stray =>
      have hread := Lossy.replaced (replaced_of_stray hlead bs) (hless bs (Nat.le_refl _))
      simpa [decode, decodeFrom, step, start, hlead] using hread
termination_by bytes.length
decreasing_by
  simp only [List.length_cons]
  omega

theorem decode_of_replaced {rest : List UInt8} (h : Replaced part rest) :
    decode (part ++ rest) = replacement :: decode rest := by
  by_cases hbegins : Begins part
  · obtain ⟨c, hc⟩ := hbegins
    rcases eq_encodeChar_or_opened h.ne_nil hc with rfl | ⟨p, hp⟩
    · exact absurd (List.prefix_append _ rest) (h.noCharacter c)
    · rw [decode, hp.decodeFrom_eq]
      cases rest with
      | nil => rfl
      | cons b bs =>
        have hfits : ¬p.Fits b := fun hfits =>
          h.longest [b] (by simp) (List.prefix_append [b] bs) (hp.begins_snoc hfits)
        exact decodeFrom_of_not_fits hfits bs
  · obtain ⟨b, rfl⟩ := List.length_eq_one_iff.1 (h.begins.resolve_left hbegins)
    cases hlead : lead b with
    | whole c =>
      obtain ⟨hascii, rfl⟩ := ascii_of_lead_whole hlead
      have hwhole : utf8EncodeChar (Char.ofNat b.toNat) <+: [b] ++ rest := by
        rw [encodeChar_ascii hascii]
        exact List.prefix_append [b] rest
      exact absurd hwhole (h.noCharacter _)
    | opens p => exact absurd (Opened.first hlead).begins hbegins
    | stray => simp [decode, decodeFrom, step, start, hlead]

/-- **Decoding reads every character and replaces the rest**, piece by piece, as `Lossy` says. -/
theorem lossy_iff {bytes : List UInt8} {cs : List Char} : Lossy bytes cs ↔ cs = decode bytes := by
  refine ⟨fun h => ?_, fun h => h ▸ lossy_decode bytes⟩
  induction h with
  | nil => rfl
  | character c h ih => rw [decode, decodeFrom_encodeChar, ih, decode]
  | replaced hpart h ih => rw [decode_of_replaced hpart, ih]

end BenchLedger.Text.Utf8
