/-!
# Exact values of floating-point numbers

A binary64 number decoded from its bits: not a number, infinite, or a sign and `m * 2 ^ e`.
-/

namespace BenchLedger.Decimal

/-- What a binary64 number denotes. -/
inductive Binary64
  | nan
  | infinite (negative : Bool)
  /-- The number `m * 2 ^ e` with a sign, which zero keeps too. -/
  | finite (negative : Bool) (m : Nat) (e : Int)
  deriving DecidableEq

namespace Binary64

/-- Decodes the bits of a binary64 number: sign, eleven bits of exponent, 52 bits of fraction. -/
def ofBits (bits : UInt64) : Binary64 :=
  let n := bits.toNat
  let negative := n / 0x8000000000000000 == 1
  let exponent : Nat := n / 0x10000000000000 % 0x800
  let fraction : Nat := n % 0x10000000000000
  if exponent = 2047 then if fraction = 0 then infinite negative else nan
  else if exponent = 0 then finite negative fraction (-1074)
  else finite negative (0x10000000000000 + fraction) ((exponent : Int) - 1075)

def ofFloat (x : Float) : Binary64 := ofBits x.toBits

end Binary64

end BenchLedger.Decimal
