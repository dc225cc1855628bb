import BenchLedger.Decimal.Shortest

/-!
# Numbers in a document

A finite floating-point number as a JSON number: the fewest digits that read back, positional
between `0.00001` and `10 ^ 16`, in scientific form with a signed exponent outside. A whole number
ends in `.0`, so that it still reads as a floating-point number.
-/

namespace BenchLedger.Json

open BenchLedger.Decimal

/-- Lays out the fraction `0.digits` times `10 ^ k`. -/
def layDigits (ds : List Char) (k : Int) : List Char :=
  if 0 < k ∧ k ≤ 16 then
    if ds.length ≤ k.toNat then ds ++ List.replicate (k.toNat - ds.length) '0' ++ ".0".toList
    else ds.take k.toNat ++ '.' :: ds.drop k.toNat
  else if -5 < k ∧ k ≤ 0 then "0.".toList ++ List.replicate (-k).toNat '0' ++ ds
  else
    let sign := if 0 < k then '+' else '-'
    ds.take 1 ++ (if ds.length ≤ 1 then [] else '.' :: ds.drop 1) ++
      'e' :: sign :: digits (k - 1).natAbs

/-- A floating-point number as a JSON number, or nothing if it is infinite or not a number. -/
def numberText? (x : Float) : Option (List Char) :=
  match Binary64.ofFloat x with
  | .nan | .infinite _ => none
  | .finite negative m e =>
    let text := if m = 0 then "0.0".toList else
      let decimal := shortestDigits m e
      layDigits decimal.1 decimal.2
    some (if negative then '-' :: text else text)

end BenchLedger.Json
