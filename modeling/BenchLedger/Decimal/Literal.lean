import BenchLedger.Decimal.Digits

/-!
# Decimal literals

The floating-point number nearest to a decimal such as `12.50`. All digits are taken as one natural
number and scaled once, so that there is a single rounding. A text that is not a decimal has no such
number.
-/

namespace BenchLedger.Decimal

/-- The number whose digits before and after the point are given. -/
def nearest (whole fraction : List Char) : Float :=
  Float.ofScientific (value (whole ++ fraction)) true fraction.length

/-- The number that a text denotes: digits, perhaps with one point before, among or after them. -/
def literal? (cs : List Char) : Option Float :=
  let whole := cs.takeWhile Char.isDigit
  match cs.dropWhile Char.isDigit with
  | [] => if whole = [] then none else some (nearest whole [])
  | c :: fraction =>
    if c = '.' ∧ fraction.all Char.isDigit ∧ whole ++ fraction ≠ [] then
      some (nearest whole fraction)
    else none

end BenchLedger.Decimal
