/-!
# Blank characters

The Unicode property `White_Space`, and trimming by it. A character is blank exactly when its code
point lies in one of the ten ranges of `blankRanges`; a trimmed text neither starts nor ends with a
blank character.
-/

namespace BenchLedger.Text

/-- The ranges of code points with the Unicode property `White_Space`, ends included. -/
def blankRanges : List (Nat × Nat) :=
  [(0x0009, 0x000D), (0x0020, 0x0020), (0x0085, 0x0085), (0x00A0, 0x00A0), (0x1680, 0x1680),
   (0x2000, 0x200A), (0x2028, 0x2029), (0x202F, 0x202F), (0x205F, 0x205F), (0x3000, 0x3000)]

/-- Whether a character has the Unicode property `White_Space`. -/
def isBlank (c : Char) : Bool :=
  blankRanges.any fun r => r.1 ≤ c.toNat && c.toNat ≤ r.2

def trimRight (cs : List Char) : List Char :=
  (cs.reverse.dropWhile isBlank).reverse

/-- The text without the blank characters at its start and at its end. -/
def trim (cs : List Char) : List Char :=
  trimRight (cs.dropWhile isBlank)

end BenchLedger.Text
