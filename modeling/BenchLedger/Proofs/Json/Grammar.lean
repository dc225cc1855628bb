import BenchLedger.Proofs.Json.Reader
import BenchLedger.Proofs.Text.Reading

/-!
# The grammar of documents

`IsDocument text r` says that a text is a JSON document and denotes `r`. The grammar is that of the
part of JSON which documents use, without arrays and escaped surrogates. The reader takes every
document for what it denotes (`read?_of_isDocument`), so a document denotes one thing only.
-/

namespace BenchLedger.Json

open Text

/-! ## Spaces and numbers -/

def IsSpaces (cs : List Char) : Prop := ∀ c ∈ cs, isSpace c = true

/-- Digits of which the first is no zero, or a zero alone. -/
def IsWhole (cs : List Char) : Prop := IsDigits cs ∧ (cs.head? = some '0' → cs = ['0'])

/-- A point and digits, or nothing. -/
inductive IsFraction : List Char → Prop
  | absent : IsFraction []
  | places {ds : List Char} (hds : IsDigits ds) : IsFraction ('.' :: ds)

/-- A mark, perhaps a sign, and digits, or nothing. -/
inductive IsExponent : List Char → Prop
  | absent : IsExponent []
  | power {mark : Char} {sign ds : List Char} (hmark : mark = 'e' ∨ mark = 'E')
      (hsign : sign = [] ∨ sign = ['+'] ∨ sign = ['-']) (hds : IsDigits ds) : IsExponent (mark :: (sign ++ ds))

inductive IsUnsigned : List Char → Prop
  | mk {whole fraction exponent : List Char} (hwhole : IsWhole whole)
      (hfraction : IsFraction fraction) (hexponent : IsExponent exponent) :
      IsUnsigned (whole ++ (fraction ++ exponent))

inductive IsNumber : List Char → Prop
  | unsigned {text : List Char} (h : IsUnsigned text) : IsNumber text
  | negative {text : List Char} (h : IsUnsigned text) : IsNumber ('-' :: text)

/-- What stands between the quotation marks of a text. -/
inductive IsQuoted : (body cs : List Char) → Prop
  | nil : IsQuoted [] []
  | plain {c : Char} {body cs : List Char} (hcontrol : 32 ≤ c.toNat) (hmark : c ≠ '"') (hslash : c ≠ '\\')
      (h : IsQuoted body cs) : IsQuoted (c :: body) (c :: cs)
  | letter {e c : Char} {body cs : List Char} (he : unescape? e = some c) (h : IsQuoted body cs) :
      IsQuoted ('\\' :: e :: body) (c :: cs)
  | code {h₁ h₂ h₃ h₄ c : Char} {body cs : List Char} (hc : codePoint? h₁ h₂ h₃ h₄ = some c) (h : IsQuoted body cs) :
      IsQuoted ('\\' :: 'u' :: h₁ :: h₂ :: h₃ :: h₄ :: body) (c :: cs)

mutual

inductive IsValue : List Char → Reading → Prop
  | null : IsValue "null".toList .null
  | yes : IsValue "true".toList (.boolean true)
  | no : IsValue "false".toList (.boolean false)
  | number {text : List Char} (h : IsNumber text) : IsValue text (.number text)
  | text {body cs : List Char} (h : IsQuoted body cs) : IsValue ('"' :: (body ++ ['"'])) (.text cs)
  | empty {gap : List Char} (h : IsSpaces gap) : IsValue ('\x7b' :: (gap ++ ['\x7d'])) (.object [])
  | object {body : List Char} {fields : List (List Char × Reading)} (h : IsFields body fields) :
      IsValue ('\x7b' :: (body ++ ['\x7d'])) (.object fields)

inductive IsField : List Char → List Char × Reading → Prop
  | mk {s₁ s₂ s₃ s₄ body name text : List Char} {r : Reading} (h₁ : IsSpaces s₁) (hname : IsQuoted body name)
      (h₂ : IsSpaces s₂) (h₃ : IsSpaces s₃) (h : IsValue text r) (h₄ : IsSpaces s₄) :
      IsField (s₁ ++ '"' :: (body ++ '"' :: (s₂ ++ ':' :: (s₃ ++ (text ++ s₄))))) (name, r)

/-- One or more fields, with a comma between each two of them. -/
inductive IsFields : List Char → List (List Char × Reading) → Prop
  | last {text : List Char} {field : List Char × Reading} (h : IsField text field) : IsFields text [field]
  | cons {text rest : List Char} {field : List Char × Reading} {fields : List (List Char × Reading)}
      (h : IsField text field) (hrest : IsFields rest fields) :
      IsFields (text ++ ',' :: rest) (field :: fields)

end

/-- A document: a value between spaces. -/
def IsDocument (text : List Char) (r : Reading) : Prop :=
  ∃ front body back, IsSpaces front ∧ IsValue body r ∧ IsSpaces back ∧ text = front ++ (body ++ back)

variable {text body cs rest gap : List Char} {r : Reading} {c : Char} {fuel : Nat}

/-! ## Spaces -/

theorem IsSpaces.skip_append (h : IsSpaces gap) (cs : List Char) : skip (gap ++ cs) = skip cs :=
  List.dropWhile_append_of_pos h

theorem skip_cons (h : isSpace c = false) (cs : List Char) : skip (c :: cs) = c :: cs :=
  List.dropWhile_cons_of_neg (by simp [h])

theorem IsSpaces.skip_append_cons (h : IsSpaces gap) (hc : isSpace c = false) (cs : List Char) :
    skip (gap ++ c :: cs) = c :: cs := by
  rw [h.skip_append, skip_cons hc]

theorem IsSpaces.skip_eq_nil (h : IsSpaces gap) : skip gap = [] :=
  List.dropWhile_eq_nil_iff.2 h

theorem isNumeral_of_isSpace (h : isSpace c = true) : isNumeral c = false := by
  simp only [isSpace, Bool.decide_or, Bool.or_eq_true, decide_eq_true_eq] at h
  rcases h with rfl | rfl | rfl | rfl <;> rfl

theorem IsSpaces.stops (h : IsSpaces gap) (hc : isNumeral c = false) (rest : List Char) :
    Stops isNumeral (gap ++ c :: rest) := by
  rintro d hd
  cases gap with
  | nil => exact Option.some.inj hd ▸ hc
  | cons e gap => exact Option.some.inj hd ▸ isNumeral_of_isSpace (h e List.mem_cons_self)

theorem readValue_spaces (h : IsSpaces gap) (fuel : Nat) (cs : List Char) :
    readValue fuel (gap ++ cs) = readValue fuel cs := by
  cases fuel with
  | zero => rfl
  | succ fuel => simp only [readValue, h.skip_append]

/-! ## Numbers -/

theorem IsUnsigned.ne_nil (h : IsUnsigned text) : text ≠ [] := by
  obtain ⟨hwhole, -, -⟩ := h
  simp [hwhole.1.1]

theorem IsNumber.ne_nil (h : IsNumber text) : text ≠ [] := by
  cases h with
  | unsigned h => exact h.ne_nil
  | negative => exact List.cons_ne_nil _ _

theorem isNumeral_of_isDigits (h : IsDigits cs) : ∀ c ∈ cs, isNumeral c = true := by
  intro c hc
  simp [isNumeral, h.2 c hc]

theorem IsUnsigned.isNumeral (h : IsUnsigned text) : ∀ c ∈ text, isNumeral c = true := by
  obtain ⟨hwhole, hfraction, hexponent⟩ := h
  simp only [List.forall_mem_append]
  refine ⟨isNumeral_of_isDigits hwhole.1, ?_, ?_⟩
  · cases hfraction with
    | absent => nofun
    | places hds => exact List.forall_mem_cons.2 ⟨rfl, isNumeral_of_isDigits hds⟩
  · cases hexponent with
    | absent => nofun
    | power hmark hsign hds =>
      simp only [List.forall_mem_cons, List.forall_mem_append]
      refine ⟨?_, ?_, isNumeral_of_isDigits hds⟩
      · rcases hmark with rfl | rfl <;> rfl
      · rcases hsign with rfl | rfl | rfl <;> simp [isNumeral]

theorem IsNumber.isNumeral (h : IsNumber text) : ∀ c ∈ text, isNumeral c = true := by
  cases h with
  | unsigned h => exact h.isNumeral
  | negative h => exact List.forall_mem_cons.2 ⟨rfl, h.isNumeral⟩

theorem after?_eq_none {lead : List Char} {l : Char} (h : l ≠ c) :
    after? (l :: lead) (c :: cs) = none := by
  rw [after?, if_neg h]

theorem readValue_number (h : IsNumber text) (hrest : Stops isNumeral rest) :
    readValue (fuel + 1) (text ++ rest) = some (.number text, rest) := by
  have htake := takeWhile_append_of_stops h.isNumeral hrest
  have hdrop := dropWhile_append_of_stops h.isNumeral hrest
  obtain ⟨c, cs, rfl⟩ := List.exists_cons_of_ne_nil h.ne_nil
  have hc : isNumeral c = true := h.isNumeral c List.mem_cons_self
  have hother (d : Char) (hd : isNumeral d = false) : d ≠ c := by
    rintro rfl
    rw [hc] at hd
    cases hd
  have hspace : isSpace c = false := by
    by_contra hspace
    rw [isNumeral_of_isSpace (by simpa using hspace)] at hc
    cases hc
  have hplain : readPlain (c :: cs ++ rest) = some (.number (c :: cs), rest) := by
    have htrue : after? "true".toList (c :: (cs ++ rest)) = none := after?_eq_none (hother 't' rfl)
    have hfalse : after? "false".toList (c :: (cs ++ rest)) = none :=
      after?_eq_none (hother 'f' rfl)
    have hnull : after? "null".toList (c :: (cs ++ rest)) = none := after?_eq_none (hother 'n' rfl)
    rw [List.cons_append] at htake hdrop ⊢
    simp only [readPlain, htrue, hfalse, hnull, htake, hdrop]
    rfl
  rw [readValue, List.cons_append, skip_cons hspace]
  split
  · rename_i hquote
    exact absurd (List.cons.inj hquote).1.symm (hother '"' rfl)
  · rename_i hbrace
    exact absurd (List.cons.inj hbrace).1.symm (hother '\x7b' rfl)
  · exact hplain

/-! ## Texts -/

theorem readText_of_isQuoted (h : IsQuoted body cs) (rest : List Char) :
    readText (body ++ '"' :: rest) = some (cs, rest) := by
  induction h with
  | nil => rfl
  | @plain c body cs hcontrol hmark hslash h ih =>
    rw [List.cons_append, readText.eq_def]
    split
    · simp_all
    · simp_all
    · simp_all
    · rename_i hcons
      obtain ⟨rfl, rfl⟩ := List.cons.inj hcons
      rw [if_neg (Nat.not_lt.2 hcontrol), ih]
      rfl
    · simp_all
  | @letter e c body cs he h ih =>
    have hcode : e ≠ 'u' := by
      rintro rfl
      cases he
    rw [List.cons_append, List.cons_append, readText]
    · rw [he, ih]
      rfl
    · rintro _ _ _ _ _ rfl
      exact absurd rfl hcode
  | code hc h ih =>
    simp only [List.cons_append, readText, hc, ih]
    rfl

/-! ## Values -/

theorem IsField.exists_skip {field : List Char × Reading} (h : IsField text field)
    (rest : List Char) : ∃ cs, skip (text ++ rest) = '"' :: cs := by
  obtain ⟨h₁, -, -, -, -, -⟩ := h
  exact ⟨_, by rw [List.append_assoc, List.cons_append, h₁.skip_append_cons rfl]⟩

theorem IsFields.exists_skip {fields : List (List Char × Reading)} (h : IsFields text fields)
    (rest : List Char) : ∃ cs, skip (text ++ rest) = '"' :: cs := by
  cases h with
  | last h => exact h.exists_skip rest
  | cons h hrest =>
    rw [List.append_assoc]
    exact h.exists_skip _

theorem IsField.length_pos {field : List Char × Reading} (h : IsField text field) :
    0 < text.length := by
  obtain ⟨-, -, -, -, -, -⟩ := h
  simp only [List.length_append, List.length_cons]
  omega

theorem IsValue.length_pos (h : IsValue text r) : 0 < text.length := by
  cases h with
  | number h => exact List.length_pos_iff.2 h.ne_nil
  | null | yes | no => decide
  | text | empty | object => exact Nat.succ_pos _

mutual

theorem readValue_of_isValue : ∀ {text : List Char} {r : Reading}, IsValue text r →
    ∀ (fuel : Nat) (rest : List Char), text.length ≤ fuel → Stops isNumeral rest →
      readValue fuel (text ++ rest) = some (r, rest)
  | _, _, h, 0, rest, hfuel, _ => absurd hfuel (Nat.not_le.2 h.length_pos)
  | _, _, .null, fuel + 1, rest, _, _ => rfl
  | _, _, .yes, fuel + 1, rest, _, _ => rfl
  | _, _, .no, fuel + 1, rest, _, _ => rfl
  | _, _, .number h, fuel + 1, rest, _, hrest => readValue_number h hrest
  | _, _, @IsValue.text body _ h, fuel + 1, rest, _, _ => by
    have htext : '"' :: (body ++ ['"']) ++ rest = '"' :: (body ++ '"' :: rest) := by simp
    rw [htext, readValue, skip_cons rfl]
    simp only [readText_of_isQuoted h, Option.map_some]
  | _, _, @IsValue.empty gap h, fuel + 1, rest, _, _ => by
    have htext : '\x7b' :: (gap ++ ['\x7d']) ++ rest = '\x7b' :: (gap ++ '\x7d' :: rest) := by simp
    rw [htext, readValue, skip_cons rfl]
    simp only [h.skip_append_cons (c := '\x7d') rfl]
  | _, _, @IsValue.object body _ h, fuel + 1, rest, hfuel, _ => by
    have htext : '\x7b' :: (body ++ ['\x7d']) ++ rest = '\x7b' :: (body ++ '\x7d' :: rest) := by simp
    have hfields := readFields_of_isFields h fuel rest (by simp at hfuel; omega)
    obtain ⟨cs, hstart⟩ := h.exists_skip ('\x7d' :: rest)
    rw [htext, readValue, skip_cons rfl]
    simp only [hstart, hfields, Option.map_some]
    rfl

theorem readField_of_isField : ∀ {text : List Char} {field : List Char × Reading},
    IsField text field → ∀ (fuel : Nat) (c : Char) (rest : List Char), text.length ≤ fuel + 1 →
      isSpace c = false → isNumeral c = false → ∃ value behind,
        readName (text ++ c :: rest) = some (field.1, value) ∧
        readValue fuel value = some (field.2, behind) ∧ skip behind = c :: rest
  | _, _, @IsField.mk s₁ s₂ s₃ s₄ body name text _ h₁ hname h₂ h₃ h h₄, fuel, c, rest, hfuel,
      hspace, hnumeral => by
    have hvalue := readValue_of_isValue h fuel (s₄ ++ c :: rest)
      (by simp only [List.length_append, List.length_cons] at hfuel; omega) (h₄.stops hnumeral rest)
    have htext : s₁ ++ '"' :: (body ++ '"' :: (s₂ ++ ':' :: (s₃ ++ (text ++ s₄)))) ++ c :: rest =
        s₁ ++ '"' :: (body ++ '"' :: (s₂ ++ ':' :: (s₃ ++ (text ++ (s₄ ++ c :: rest))))) := by
      simp
    refine ⟨s₃ ++ (text ++ (s₄ ++ c :: rest)), s₄ ++ c :: rest, ?_, ?_, ?_⟩
    · rw [htext, readName, h₁.skip_append_cons rfl]
      simp only [readText_of_isQuoted hname, h₂.skip_append_cons (c := ':') rfl]
    · rw [readValue_spaces h₃, hvalue]
    · exact h₄.skip_append_cons hspace rest

theorem readFields_of_isFields : ∀ {text : List Char} {fields : List (List Char × Reading)},
    IsFields text fields → ∀ (fuel : Nat) (rest : List Char), text.length ≤ fuel →
      readFields fuel (text ++ '\x7d' :: rest) = some (fields, rest)
  | _, _, .last h, 0, rest, hfuel => absurd hfuel (Nat.not_le.2 h.length_pos)
  | _, _, .last h, fuel + 1, rest, hfuel => by
    obtain ⟨value, behind, hname, hvalue, hskip⟩ :=
      readField_of_isField h fuel '\x7d' rest hfuel rfl rfl
    simp only [readFields, hname, hvalue, hskip]
  | _, _, .cons h _, 0, rest, hfuel => absurd hfuel (by simp)
  | _, _, @IsFields.cons text others _ _ h hothers, fuel + 1, rest, hfuel => by
    simp only [List.length_append, List.length_cons] at hfuel
    obtain ⟨value, behind, hname, hvalue, hskip⟩ :=
      readField_of_isField h fuel ',' (others ++ '\x7d' :: rest) (by omega) rfl rfl
    have hread := readFields_of_isFields hothers fuel rest (by omega)
    have htext : text ++ ',' :: others ++ '\x7d' :: rest =
        text ++ ',' :: (others ++ '\x7d' :: rest) := by simp
    simp only [htext, readFields, hname, hvalue, hskip, hread, Option.map_some]

end

/-- The reader takes a document for what it denotes. -/
theorem read?_of_isDocument (h : IsDocument text r) : read? text = some r := by
  obtain ⟨front, body, back, hfront, hbody, hback, rfl⟩ := h
  have hstops : Stops isNumeral back := by
    intro c hc
    exact isNumeral_of_isSpace (hback c (List.mem_of_mem_head? hc))
  have hread := readValue_of_isValue hbody ((front ++ (body ++ back)).length + 1) back
    (by simp only [List.length_append]; omega) hstops
  rw [read?, readValue_spaces hfront, hread]
  simp only [hback.skip_eq_nil, if_true]

theorem IsDocument.unique {r' : Reading} (h : IsDocument text r) (h' : IsDocument text r') :
    r = r' :=
  Option.some.inj ((read?_of_isDocument h).symm.trans (read?_of_isDocument h'))

end BenchLedger.Json
