import BenchLedger.Json.Printer
import BenchLedger.Proofs.Decimal.Shortest
import BenchLedger.Proofs.Json.Grammar

/-!
# Printed documents are read back

A printed value belongs to the grammar and denotes what it was made from (`isDocument_print`): every
text character for character, every field under its name and in its place, and a number by its text.
So it is read back, and as nothing else.
-/

namespace BenchLedger.Json

open Decimal Text

/-! ## What a printed value reads as -/

mutual

def Value.reading : Value → Reading
  | .boolean b => .boolean b
  | .natural n => .number (digits n)
  | .real x => (numberText? x).elim .null .number
  | .text s => .text s.toList
  | .object fields => .object (readings fields)

def readings : List (String × Value) → List (List Char × Reading)
  | [] => []
  | (name, value) :: fields => (name.toList, value.reading) :: readings fields

end

/-! ## Texts -/

section texts

variable {c : Char}

theorem hexValue?_digitChar : ∀ d < 16, hexValue? (Nat.digitChar d) = some d := by decide

theorem codePoint?_digitChar (h : c.toNat < 32) :
    codePoint? '0' '0' (Nat.digitChar (c.toNat / 16)) (Nat.digitChar (c.toNat % 16)) = some c := by
  have hhigh := hexValue?_digitChar (c.toNat / 16) (by omega)
  have hlow := hexValue?_digitChar (c.toNat % 16) (by omega)
  have hzero : hexValue? '0' = some 0 := rfl
  have hcode : 256 * (16 * 0 + 0) + (16 * (c.toNat / 16) + c.toNat % 16) = c.toNat := by omega
  simp only [codePoint?, hhigh, hlow, hzero, Option.bind_eq_bind, Option.bind_some, hcode]
  have hvalid : c.toNat.isValidChar := c.valid
  rw [if_pos hvalid, Char.ofNat_toNat]

theorem IsQuoted.escapeChar_append {body cs : List Char} (h : IsQuoted body cs) (c : Char) :
    IsQuoted (escapeChar c ++ body) (c :: cs) := by
  unfold escapeChar
  split
  · exact .letter rfl h
  · exact .letter rfl h
  · exact .letter rfl h
  · exact .letter rfl h
  · exact .letter rfl h
  · exact .letter rfl h
  · exact .letter rfl h
  · rename_i hmark hslash _ _ _ _ _
    split_ifs with hcontrol
    · exact .code (codePoint?_digitChar hcontrol) h
    · exact .plain (Nat.not_lt.1 hcontrol) hmark hslash h

theorem isQuoted_escape (cs : List Char) : IsQuoted (cs.flatMap escapeChar) cs := by
  induction cs with
  | nil => exact .nil
  | cons c cs ih =>
    rw [List.flatMap_cons]
    exact ih.escapeChar_append c

end texts

/-! ## Numbers -/

section numbers

variable {ds xs ys text : List Char} {d : Char}

theorem isDigits_digits (n : Nat) : IsDigits (digits n) :=
  ⟨digits_ne_nil n, fun _ => isDigit_of_mem_digits⟩

theorem isWhole_digits (n : Nat) : IsWhole (digits n) := by
  refine ⟨isDigits_digits n, fun hzero => ?_⟩
  obtain rfl : n = 0 := by
    by_contra hn
    exact head?_digits hn hzero
  rfl

theorem isWhole_zero : IsWhole ['0'] := isWhole_digits 0

theorem isWhole_cons (h : IsDigits (d :: ds)) (hd : d ≠ '0') : IsWhole (d :: ds) :=
  ⟨h, fun hzero => absurd (Option.some.inj hzero) hd⟩

theorem isNumber_digits (n : Nat) : IsNumber (digits n) := by
  have hnumber := IsUnsigned.mk (isWhole_digits n) .absent .absent
  rw [List.append_nil, List.append_nil] at hnumber
  exact .unsigned hnumber

theorem isFraction_zero : IsFraction ".0".toList :=
  .places ⟨List.cons_ne_nil _ _, List.forall_mem_singleton.2 rfl⟩

theorem isDigit_of_mem_replicate {n : Nat} {c : Char} (h : c ∈ List.replicate n '0') :
    c.isDigit = true := by
  rw [(List.mem_replicate.1 h).2]
  rfl

/-- However a decimal is laid out, a zero stands in front only where it is the whole part. -/
theorem isUnsigned_layDigits (h : IsDigits (d :: ds)) (hd : d ≠ '0') (k : Int) :
    IsUnsigned (layDigits (d :: ds) k) := by
  have hall := h.2
  have hdrop (n : Nat) : ∀ c ∈ (d :: ds).drop n, c.isDigit = true :=
    fun c hc => hall c (List.mem_of_mem_drop hc)
  unfold layDigits
  by_cases hplain : 0 < k ∧ k ≤ 16
  · rw [if_pos hplain]
    obtain ⟨n, hn⟩ : ∃ n, k.toNat = n + 1 := ⟨k.toNat - 1, by omega⟩
    split_ifs with hlength
    · have hwhole : IsWhole (d :: ds ++ List.replicate (k.toNat - (d :: ds).length) '0') :=
        isWhole_cons ⟨List.cons_ne_nil _ _, List.forall_mem_append.2
          ⟨hall, fun _ => isDigit_of_mem_replicate⟩⟩ hd
      simpa using IsUnsigned.mk hwhole isFraction_zero .absent
    · have hwhole : IsWhole ((d :: ds).take k.toNat) := by
        rw [hn, List.take_succ_cons]
        refine isWhole_cons ⟨List.cons_ne_nil _ _, fun c hc => hall c ?_⟩ hd
        exact List.mem_of_mem_take (List.take_succ_cons ▸ hc)
      have hfraction : IsFraction ('.' :: (d :: ds).drop k.toNat) :=
        .places ⟨mt List.drop_eq_nil_iff.1 hlength, hdrop _⟩
      simpa using IsUnsigned.mk hwhole hfraction .absent
  rw [if_neg hplain]
  by_cases hsmall : -5 < k ∧ k ≤ 0
  · rw [if_pos hsmall]
    have hfraction : IsFraction ('.' :: (List.replicate (-k).toNat '0' ++ d :: ds)) :=
      .places ⟨by simp, List.forall_mem_append.2 ⟨fun _ => isDigit_of_mem_replicate, hall⟩⟩
    simpa using IsUnsigned.mk isWhole_zero hfraction .absent
  · rw [if_neg hsmall]
    have hwhole : IsWhole [d] :=
      isWhole_cons ⟨List.cons_ne_nil _ _, fun c hc => hall c (by simp_all)⟩ hd
    have hfraction :
        IsFraction (if (d :: ds).length ≤ 1 then [] else '.' :: (d :: ds).drop 1) := by
      split_ifs with hlength
      · exact .absent
      · exact .places ⟨mt List.drop_eq_nil_iff.1 hlength, hdrop 1⟩
    have hexponent : IsExponent ('e' :: ([if 0 < k then '+' else '-'] ++ digits (k - 1).natAbs)) :=
      .power (.inl rfl) (by split_ifs <;> simp) (isDigits_digits _)
    have hunsigned := IsUnsigned.mk hwhole hfraction hexponent
    rwa [← List.append_assoc] at hunsigned

theorem le_exponent_of_ofFloat {x : Float} {negative : Bool} {m : Nat} {e : Int}
    (h : Binary64.ofFloat x = .finite negative m e) : -1074 ≤ e := by
  rw [Binary64.ofFloat, Binary64.ofBits] at h
  split_ifs at h with hall hnone hsubnormal
  · obtain ⟨-, -, rfl⟩ := Binary64.finite.inj h
    exact Int.le_refl _
  · obtain ⟨-, -, rfl⟩ := Binary64.finite.inj h
    omega

theorem isUnsigned_shortestDigits {m : Nat} {e : Int} (hm : m ≠ 0) (he : -1074 ≤ e) :
    IsUnsigned (layDigits (shortestDigits m e).1 (shortestDigits m e).2) := by
  obtain ⟨d, ds, hdigits, hd, hall⟩ := shortestDigits_eq_cons hm he
  rw [hdigits]
  exact isUnsigned_layDigits ⟨List.cons_ne_nil _ _, hall⟩ hd _

theorem isNumber_sign {negative : Bool} (h : IsUnsigned text) :
    IsNumber (if negative then '-' :: text else text) := by
  cases negative with
  | true => exact .negative h
  | false => exact .unsigned h

theorem isNumber_numberText? {x : Float} (h : numberText? x = some text) : IsNumber text := by
  unfold numberText? at h
  cases hx : Binary64.ofFloat x with
  | nan => simp [hx] at h
  | infinite negative => simp [hx] at h
  | finite negative m e =>
    simp only [hx, Option.some.injEq] at h
    rw [← h]
    refine isNumber_sign ?_
    split_ifs with hm
    · exact .mk isWhole_zero isFraction_zero .absent
    · exact isUnsigned_shortestDigits hm (le_exponent_of_ofFloat hx)

end numbers

/-! ## Values -/

theorem isSpaces_newLine (level : Nat) : IsSpaces (newLine level) := by
  intro c hc
  rcases List.mem_cons.1 hc with rfl | hc
  · rfl
  · rw [(List.mem_replicate.1 hc).2]
    rfl

theorem IsSpaces.nil : IsSpaces [] := nofun

/-- A field on its own line, in front of the line that `gap` starts. -/
theorem isField_printField {v : Value} {level : Nat} {gap : List Char} (name : String)
    (h : IsValue (printAt level v) v.reading) (hgap : IsSpaces gap) :
    IsField (newLine level ++ (printField level (name, v) ++ gap)) (name.toList, v.reading) := by
  have hspace : IsSpaces [' '] := by
    intro c hc
    rw [List.mem_singleton.1 hc]
    rfl
  have hfield := IsField.mk (isSpaces_newLine level) (isQuoted_escape name.toList) .nil hspace h hgap
  simpa [printField, quoted] using hfield

mutual

theorem isValue_printAt : ∀ (v : Value) (level : Nat), IsValue (printAt level v) v.reading
  | .boolean true, level => .yes
  | .boolean false, level => .no
  | .natural n, level => .number (isNumber_digits n)
  | .real x, level => by
    rw [printAt, Value.reading]
    cases hx : numberText? x with
    | none => exact .null
    | some text => exact .number (isNumber_numberText? hx)
  | .text s, level => .text (isQuoted_escape s.toList)
  | .object [], level => @IsValue.empty [] .nil
  | .object ((name, v) :: fields), level => by
    have hvalue := isValue_printAt v (level + 1)
    have hobject := IsValue.object
      (isFields_print fields (level + 1) name hvalue (isSpaces_newLine level))
    simpa [printAt, Value.reading] using hobject

theorem isFields_print : ∀ (fields : List (String × Value)) (level : Nat) (name : String)
    {v : Value} {gap : List Char}, IsValue (printAt level v) v.reading → IsSpaces gap →
    IsFields (newLine level ++ (printField level (name, v) ++ (printFields level fields ++ gap)))
      (readings ((name, v) :: fields))
  | [], level, name, v, gap, hvalue, hgap => .last (isField_printField name hvalue hgap)
  | (name', v') :: fields, level, name, v, gap, hvalue, hgap => by
    have hfield := isField_printField name hvalue .nil
    have hfields := isFields_print fields level name' (isValue_printAt v' level) hgap
    simpa [printFields, readings] using IsFields.cons hfield hfields

end

theorem isDocument_print (v : Value) : IsDocument v.print v.reading :=
  ⟨[], v.print, [], .nil, isValue_printAt v 0, .nil, (List.append_nil _).symm⟩

theorem read?_print (v : Value) : read? v.print = some v.reading :=
  read?_of_isDocument (isDocument_print v)

end BenchLedger.Json
