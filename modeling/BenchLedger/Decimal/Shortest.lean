import BenchLedger.Decimal.Digits
import BenchLedger.Decimal.Binary64

/-!
# Shortest decimals

The decimal with the fewest digits that reads back as a given binary64 number, and of those the
nearest. A decimal reads back if it lies between the midpoints to the two neighbouring numbers,
the midpoints themselves included exactly when the significand is even. For one, two, … seventeen
digits the two multiples of the last place around the exact value are tried; all comparisons are
between natural numbers.
-/

namespace BenchLedger.Decimal

/-- A positive binary64 number `4 * m * 2 ^ q` and the interval of reals that round to it, in units
of a quarter of its last place. -/
structure Rounding where
  low : Nat
  /-- The number itself, in quarters. -/
  middle : Nat
  high : Nat
  closed : Bool
  /-- The power of two that a quarter stands for. -/
  exponent : Int

namespace Rounding

/-- The interval of `m * 2 ^ e`. The neighbour below a power of two is only half as far away. -/
def ofFinite (m : Nat) (e : Int) : Rounding :=
  { low := 4 * m - (if m = 0x10000000000000 ∧ -1074 < e then 1 else 2)
    middle := 4 * m
    high := 4 * m + 2
    closed := m % 2 == 0
    exponent := e - 2 }

/-- Compares `a * 10 ^ k` with `b` quarters. -/
def compareWith (r : Rounding) (a : Nat) (k : Int) (b : Nat) : Ordering :=
  compare (a * Nat.pow 10 k.toNat * Nat.pow 2 (-r.exponent).toNat)
    (b * Nat.pow 2 r.exponent.toNat * Nat.pow 10 (-k).toNat)

/-- Whether `a * 10 ^ k` rounds to the number. -/
def readsBack (r : Rounding) (a : Nat) (k : Int) : Bool :=
  match r.compareWith a k r.low, r.compareWith a k r.high with
  | .lt, _ | _, .gt => false
  | .eq, _ | _, .eq => r.closed
  | .gt, .lt => true

/-- The greatest multiple of `10 ^ k` that is not above the number, as a count of such units. -/
def below (r : Rounding) (k : Int) : Nat :=
  r.middle * Nat.pow 2 r.exponent.toNat * Nat.pow 10 (-k).toNat /
    (Nat.pow 10 k.toNat * Nat.pow 2 (-r.exponent).toNat)

/-- The exponent `k` with `10 ^ (k - 1) ≤ x < 10 ^ k`; every number is above `10 ^ (-324)`. -/
def magnitude (r : Rounding) : Int := (digits (r.below (-324))).length - 324

/-- The nearest multiple of `10 ^ k` that reads back, as a count of such units; of two equally near
ones the even one. -/
def nearest? (r : Rounding) (k : Int) : Option Nat :=
  let a := r.below k
  match r.readsBack a k, r.readsBack (a + 1) k with
  | true, false => some a
  | false, true => some (a + 1)
  | false, false => none
  | true, true =>
    match r.compareWith (2 * a + 1) k (2 * r.middle) with
    | .gt => some a
    | .lt => some (a + 1)
    | .eq => some (if a % 2 = 0 then a else a + 1)

/-- The shortest decimal `a * 10 ^ k` that reads back, as the pair of `a` and `k`. -/
def shortest (r : Rounding) : Nat × Int :=
  let units (n : Nat) : Int := r.magnitude - n
  match (List.range' 1 17).findSome? fun n => (r.nearest? (units n)).map (·, units n) with
  | some decimal => decimal
  | none => (r.below (units 17), units 17)

end Rounding

/-- The digits of the decimal `a * 10 ^ k` without zeros at the end, and the exponent that makes it
the fraction `0.digits` times a power of ten. -/
def fractionDigits : Nat × Int → List Char × Int
  | (a, k) =>
    let ds := digits a
    ((ds.reverse.dropWhile (· == '0')).reverse, k + ds.length)

/-- The shortest decimal that reads back as the positive number `m * 2 ^ e`: its digits without
zeros at the end, and the exponent `k` that makes it the fraction `0.digits` times `10 ^ k`. -/
def shortestDigits (m : Nat) (e : Int) : List Char × Int :=
  fractionDigits (Rounding.ofFinite m e).shortest

end BenchLedger.Decimal
