/-!
# Digit texts

Natural numbers written in decimal, with or without a least width, and the value of a text of
digits. Writing and reading are inverse: `value_digits`.
-/

namespace BenchLedger.Decimal

def digits (n : Nat) : List Char := Nat.toDigits 10 n

/-- The value of a text of decimal digits. -/
def value (cs : List Char) : Nat := Nat.ofDigitChars 10 cs 0

/-- The decimal digits of a number, with zeros in front up to the width. -/
def padded (width n : Nat) : List Char :=
  List.replicate (width - (digits n).length) '0' ++ digits n

theorem value_digits (n : Nat) : value (digits n) = n :=
  Nat.ofDigitChars_toDigits (by decide) (by decide)

theorem isDigit_of_mem_digits {n : Nat} {c : Char} (h : c ∈ digits n) : c.isDigit = true :=
  Nat.isDigit_of_mem_toDigits (by decide) (by decide) h

theorem isDigit_of_mem_padded {width n : Nat} {c : Char} (h : c ∈ padded width n) :
    c.isDigit = true := by
  rcases List.mem_append.1 h with h | h
  · rw [(List.mem_replicate.1 h).2]; rfl
  · exact isDigit_of_mem_digits h

end BenchLedger.Decimal
