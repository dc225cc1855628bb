import BenchLedger.Text.LowerCase
import BenchLedger.Text.Search
import Mathlib.Tactic.Common

/-!
# Searching without regard to case

A search in the lower case of a text finds what a comparison of ASCII letters without case finds in
the text itself. This holds of every lower case that goes character by character, whether or not it
looks at the text around a character (`LowerCasing.infix_text_iff`), and so of `lowerCase`. Two
characters outside ASCII have an ASCII letter in their lower case: a needle without `k` cannot meet
the one, and a needle in ASCII that does not end in `i` cannot meet the other, behind whose `i` a
combining dot follows.
-/

namespace BenchLedger.Text

/-- A lower case of texts, taken character by character. ASCII letters fold; of the other characters
only U+0130 and U+212A have ASCII in their lower case, and none vanishes. Which lower case a
character has may depend on the text around it, as for a sigma at the end of a word. -/
structure LowerCasing where
  /-- The lower case of a character behind one text and in front of another. -/
  piece (before : List Char) (c : Char) (after : List Char) : List Char
  ascii : ∀ before c after, c.toNat < 128 → piece before c after = [c.toLower]
  dotted : ∀ before after, piece before '\u0130' after = ['i', '\u0307']
  kelvin : ∀ before after, piece before '\u212A' after = ['k']
  other : ∀ before c after, 128 ≤ c.toNat → c ≠ '\u0130' → c ≠ '\u212A' →
    piece before c after ≠ [] ∧ ∀ d ∈ piece before c after, 128 ≤ d.toNat

namespace LowerCasing

/-- The lower case of a part of a text, with what stands before and after the part. -/
def within (L : LowerCasing) (before after : List Char) : List Char → List Char
  | [] => []
  | c :: cs => L.piece before c (cs ++ after) ++ L.within (before ++ [c]) after cs

def text (L : LowerCasing) (cs : List Char) : List Char := L.within [] [] cs

theorem within_append (L : LowerCasing) (before after xs ys : List Char) :
    L.within before after (xs ++ ys) =
      L.within before (ys ++ after) xs ++ L.within (before ++ xs) after ys := by
  induction xs generalizing before with
  | nil => simp [within]
  | cons x xs ih => simp [within, ih]

end LowerCasing

/-- A text whose search in lower case is a search without regard to case. -/
structure Foldable (needle : List Char) : Prop where
  ascii : ∀ c ∈ needle, c.toNat < 128
  noKelvin : 'k' ∉ needle
  noDotted : needle.getLast? ≠ some 'i'

/-- Consecutive characters of the text are the needle, but for the case of ASCII letters. -/
def OccursFolded (needle cs : List Char) : Prop :=
  ∃ window, window <:+: cs ∧ window.map Char.toLower = needle

variable {n c : Char} {needle window before after cs : List Char} {L : LowerCasing}

/-! ## Characters that no occurrence meets -/

theorem Foldable.tail (h : Foldable (n :: needle)) : Foldable needle := by
  refine ⟨fun c hc => h.ascii c (List.mem_cons_of_mem n hc),
    fun hmem => h.noKelvin (List.mem_cons_of_mem n hmem), fun hlast => h.noDotted ?_⟩
  rw [List.getLast?_cons, hlast]
  rfl

theorem Foldable.ne_of_nonAscii (h : Foldable (n :: needle)) (hc : 128 ≤ c.toNat) : n ≠ c := by
  rintro rfl
  exact absurd (h.ascii _ List.mem_cons_self) (Nat.not_lt.2 hc)

theorem Foldable.ne_k (h : Foldable (n :: needle)) : n ≠ 'k' := by
  rintro rfl
  exact h.noKelvin List.mem_cons_self

/-- No needle starts in front of the `i` that comes with a combining dot. -/
theorem Foldable.not_dotted (h : Foldable (n :: needle)) (rest : List Char) :
    ¬n :: needle <+: 'i' :: '\u0307' :: rest := by
  intro hstarts
  obtain ⟨rfl, hrest⟩ := List.cons_prefix_cons.1 hstarts
  cases needle with
  | nil => exact h.noDotted rfl
  | cons m needle =>
    exact h.tail.ne_of_nonAscii (by decide) (List.cons_prefix_cons.1 hrest).1

theorem Foldable.infix_of_nonAscii (h : Foldable (n :: needle)) {ds rest : List Char}
    (hds : ∀ d ∈ ds, 128 ≤ d.toNat) (hoccurs : n :: needle <:+: ds ++ rest) :
    n :: needle <:+: rest := by
  induction ds with
  | nil => exact hoccurs
  | cons d ds ih =>
    obtain ⟨hd, hds⟩ := List.forall_mem_cons.1 hds
    rcases List.infix_cons_iff.1 hoccurs with hstarts | hoccurs
    · exact absurd (List.cons_prefix_cons.1 hstarts).1 (h.ne_of_nonAscii hd)
    · exact ih hds hoccurs

theorem LowerCasing.not_starts (L : LowerCasing) (h : Foldable (n :: needle))
    (hc : 128 ≤ c.toNat) (before after rest : List Char) :
    ¬n :: needle <+: L.piece before c after ++ rest := by
  by_cases hdotted : c = '\u0130'
  · rw [hdotted, L.dotted]
    exact h.not_dotted rest
  by_cases hkelvin : c = '\u212A'
  · rw [hkelvin, L.kelvin]
    exact fun hstarts => h.ne_k (List.cons_prefix_cons.1 hstarts).1
  · obtain ⟨hne, hall⟩ := L.other before c after hc hdotted hkelvin
    obtain ⟨d, ds, hpiece⟩ := List.exists_cons_of_ne_nil hne
    rw [hpiece] at hall ⊢
    exact fun hstarts => h.ne_of_nonAscii (hall d List.mem_cons_self)
      (List.cons_prefix_cons.1 hstarts).1

theorem LowerCasing.infix_rest (L : LowerCasing) (h : Foldable (n :: needle))
    (hc : 128 ≤ c.toNat) {before after rest : List Char}
    (hoccurs : n :: needle <:+: L.piece before c after ++ rest) : n :: needle <:+: rest := by
  have hnot := L.not_starts h hc before after rest
  by_cases hdotted : c = '\u0130'
  · rw [hdotted, L.dotted] at hoccurs hnot
    rcases List.infix_cons_iff.1 hoccurs with hstarts | hoccurs
    · exact absurd hstarts hnot
    · have hdot : ∀ d ∈ ['\u0307'], 128 ≤ d.toNat := List.forall_mem_singleton.2 (by decide)
      exact h.infix_of_nonAscii hdot hoccurs
  by_cases hkelvin : c = '\u212A'
  · rw [hkelvin, L.kelvin] at hoccurs hnot
    exact (List.infix_cons_iff.1 hoccurs).resolve_left hnot
  · exact h.infix_of_nonAscii (L.other before c after hc hdotted hkelvin).2 hoccurs

/-! ## Occurrences -/

theorem exists_window_of_start (h : Foldable needle)
    (hstarts : needle <+: L.within before after cs) :
    ∃ window, window <+: cs ∧ window.map Char.toLower = needle := by
  induction needle generalizing before cs with
  | nil => exact ⟨[], List.nil_prefix, rfl⟩
  | cons n needle ih =>
    cases cs with
    | nil => exact absurd (List.prefix_nil.1 hstarts) (List.cons_ne_nil n needle)
    | cons c cs =>
      rw [LowerCasing.within] at hstarts
      rcases Nat.lt_or_ge c.toNat 128 with hascii | hnonAscii
      · rw [L.ascii _ _ _ hascii] at hstarts
        obtain ⟨rfl, hrest⟩ := List.cons_prefix_cons.1 hstarts
        obtain ⟨window, hwindow, rfl⟩ := ih h.tail hrest
        exact ⟨c :: window, List.cons_prefix_cons.2 ⟨rfl, hwindow⟩, rfl⟩
      · exact absurd hstarts (L.not_starts h hnonAscii _ _ _)

theorem OccursFolded.cons (h : OccursFolded needle cs) (c : Char) :
    OccursFolded needle (c :: cs) := by
  obtain ⟨window, hwindow, hfold⟩ := h
  exact ⟨window, hwindow.trans (List.infix_cons_iff.2 (.inr (List.infix_refl cs))), hfold⟩

theorem occursFolded_of_infix (h : Foldable needle)
    (hoccurs : needle <:+: L.within before after cs) : OccursFolded needle cs := by
  cases needle with
  | nil => exact ⟨[], List.nil_infix, rfl⟩
  | cons n needle =>
    induction cs generalizing before with
    | nil => exact absurd (List.infix_nil.1 hoccurs) (List.cons_ne_nil n needle)
    | cons c cs ih =>
      by_cases hstarts : n :: needle <+: L.within before after (c :: cs)
      · obtain ⟨window, hwindow, hfold⟩ := exists_window_of_start h hstarts
        exact ⟨window, hwindow.isInfix, hfold⟩
      -- The occurrence starts behind the lower case of the first character.
      refine OccursFolded.cons (@ih (before ++ [c]) ?_) c
      rw [LowerCasing.within] at hoccurs hstarts
      rcases Nat.lt_or_ge c.toNat 128 with hascii | hnonAscii
      · rw [L.ascii _ _ _ hascii] at hoccurs hstarts
        exact (List.infix_cons_iff.1 hoccurs).resolve_left hstarts
      · exact L.infix_rest h hnonAscii hoccurs

theorem toNat_lt_of_toLower (h : c.toLower.toNat < 128) : c.toNat < 128 := by
  unfold Char.toLower at h
  split at h
  · rename_i hupper
    have hle : c.val ≤ 'Z'.val := hupper.2
    have hval : c.val.toNat ≤ 90 := hle
    exact Nat.lt_of_le_of_lt hval (by decide)
  · exact h

/-- A window that folds to ASCII is its own lower case, wherever it stands. -/
theorem LowerCasing.within_window (L : LowerCasing)
    (h : ∀ c ∈ window.map Char.toLower, c.toNat < 128) (before after : List Char) :
    L.within before after window = window.map Char.toLower := by
  induction window generalizing before with
  | nil => rfl
  | cons c window ih =>
    have hc : c.toNat < 128 := toNat_lt_of_toLower (h _ (by simp))
    rw [within, L.ascii _ _ _ hc, ih fun c hmem => h c (List.mem_cons_of_mem _ hmem)]
    rfl

/-- A search in any lower case is a search without regard to case. -/
theorem LowerCasing.infix_text_iff (L : LowerCasing) (h : Foldable needle) :
    needle <:+: L.text cs ↔ OccursFolded needle cs := by
  constructor
  · exact occursFolded_of_infix h
  · rintro ⟨window, ⟨front, back, rfl⟩, rfl⟩
    refine ⟨L.within [] (window ++ back) front, L.within (front ++ window) [] back, ?_⟩
    rw [text, List.append_assoc, L.within_append, L.within_append, L.within_window h.ascii]
    simp

theorem infix_append_cons {α : Type} {window front back : List α} {a : α} (ha : a ∉ window)
    (h : window <:+: front ++ a :: back) : window <:+: front ∨ window <:+: back := by
  have hstarts {part : List α} (hpart : a ∉ part) (h : part <+: a :: back) : part = [] := by
    rcases List.prefix_cons_iff.1 h with hnil | ⟨rest, rfl, -⟩
    · exact hnil
    · exact absurd List.mem_cons_self hpart
  rcases List.infix_append_iff_ne_nil.1 h with hfront | hback | ⟨l, r, hl, hr, rfl, -, hback⟩
  · exact .inl hfront
  · rcases List.infix_cons_iff.1 hback with hback | hback
    · exact .inl (hstarts ha hback ▸ List.nil_infix)
    · exact .inr hback
  · exact absurd (hstarts (fun hmem => ha (List.mem_append_right l hmem)) hback) hr

theorem occursFolded_append_cons (h : Foldable needle) (hc : 128 ≤ c.toNat)
    (front back : List Char) : OccursFolded needle (front ++ c :: back) ↔
      OccursFolded needle front ∨ OccursFolded needle back := by
  constructor
  · rintro ⟨window, hwindow, rfl⟩
    have hmem : c ∉ window := fun hmem => absurd hc
      (Nat.not_le.2 (toNat_lt_of_toLower (h.ascii _ (List.mem_map_of_mem hmem))))
    rcases infix_append_cons hmem hwindow with hfront | hback
    · exact .inl ⟨window, hfront, rfl⟩
    · exact .inr ⟨window, hback, rfl⟩
  · rintro (⟨window, hwindow, hfold⟩ | ⟨window, hwindow, hfold⟩)
    · exact ⟨window, List.infix_append_of_infix_left hwindow, hfold⟩
    · exact ⟨window, List.infix_append_of_infix_right
        (hwindow.trans (List.suffix_cons c back).isInfix), hfold⟩

/-! ## The lower case of ASCII words -/

/-- The lower case that leaves alone what no search for an ASCII word can notice. -/
def LowerCasing.plain : LowerCasing where
  piece _ c _ := lowerChar c
  ascii _ c _ hc := by
    have hdotted : c ≠ '\u0130' := by rintro rfl; exact absurd hc (by decide)
    have hkelvin : c ≠ '\u212A' := by rintro rfl; exact absurd hc (by decide)
    rw [lowerChar, if_neg hdotted, if_neg hkelvin]
  dotted _ _ := rfl
  kelvin _ _ := rfl
  other _ c _ hc hdotted hkelvin := by
    rw [lowerChar, if_neg hdotted, if_neg hkelvin]
    refine ⟨List.cons_ne_nil _ _, fun d hd => ?_⟩
    rw [List.mem_singleton.1 hd]
    exact Nat.not_lt.1 fun hlt => absurd (toNat_lt_of_toLower hlt) (Nat.not_lt.2 hc)

theorem LowerCasing.text_plain (cs : List Char) : plain.text cs = lowerCase cs := by
  have hwithin (before : List Char) : plain.within before [] cs = lowerCase cs := by
    induction cs generalizing before with
    | nil => rfl
    | cons c cs ih => rw [within, ih, lowerCase_cons]; rfl
  exact hwithin []

theorem occursIn_lowerCase_iff (h : Foldable needle) :
    occursIn needle (lowerCase cs) = true ↔ OccursFolded needle cs := by
  rw [occursIn_iff, ← LowerCasing.text_plain, LowerCasing.infix_text_iff _ h]

end BenchLedger.Text
