import BenchLedger.Decimal.Digits
import BenchLedger.Decimal.Binary64

/-!
# Fixed places

Floating-point numbers written with a fixed number of decimal places. The exact value is rounded
once, to the nearest multiple of the last place; a half goes to the even neighbour.
-/

namespace BenchLedger.Decimal

/-- The quotient rounded to the nearest integer, a half to the even neighbour. -/
def roundQuotient (num den : Nat) : Nat :=
  let q := num / den
  let r := 2 * (num % den)
  if r < den ∨ (r = den ∧ q % 2 = 0) then q else q + 1

/-- How many units of the last of `places` decimal places are nearest to `m * 2 ^ e`. -/
def unitsOfPlace (places m : Nat) (e : Int) : Nat :=
  roundQuotient (m * Nat.pow 10 places * Nat.pow 2 e.toNat) (Nat.pow 2 (-e).toNat)

/-- A count of units of the last decimal place, written with a point before the places. -/
def placePoint (places units : Nat) : List Char :=
  let ds := padded (places + 1) units
  let whole := ds.take (ds.length - places)
  if places = 0 then whole else whole ++ '.' :: ds.drop (ds.length - places)

/-- A floating-point number with a fixed number of decimal places. Zero keeps its sign. -/
def fixedPlaces (places : Nat) (x : Float) : List Char :=
  match Binary64.ofFloat x with
  | .nan => "NaN".toList
  | .infinite negative => (if negative then "-inf" else "inf").toList
  | .finite negative m e =>
    let text := placePoint places (unitsOfPlace places m e)
    if negative then '-' :: text else text

end BenchLedger.Decimal
