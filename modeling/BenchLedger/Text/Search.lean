/-!
# Searching a text

`occursIn needle text` says whether `needle` stands somewhere in `text`; `occursIn_iff` states it
as the existence of a text before and a text after.
-/

namespace BenchLedger.Text

/-- Whether `needle` stands in the text as consecutive characters. -/
def occursIn (needle : List Char) : List Char → Bool
  | [] => needle.isEmpty
  | c :: cs => needle.isPrefixOf (c :: cs) || occursIn needle cs

theorem occursIn_iff {needle : List Char} {cs : List Char} :
    occursIn needle cs = true ↔ needle <:+: cs := by
  induction cs with
  | nil => simp [occursIn, List.isEmpty_iff]
  | cons c cs ih => simp [occursIn, ih, List.infix_cons_iff]

/-- What follows `lead` in a text that starts with it. -/
def after? : List Char → List Char → Option (List Char)
  | [], cs => some cs
  | _ :: _, [] => none
  | l :: ls, c :: cs => if l = c then after? ls cs else none

theorem after?_eq_some_iff {lead cs rest : List Char} :
    after? lead cs = some rest ↔ cs = lead ++ rest := by
  induction lead generalizing cs with
  | nil => simp [after?, eq_comm]
  | cons l ls ih =>
    cases cs with
    | nil => simp [after?]
    | cons c cs =>
      by_cases h : l = c
      · simp [after?, h, ih]
      · simp [after?, h, Ne.symm h]

end BenchLedger.Text
