import BenchLedger.Decimal.Literal
import BenchLedger.Text.Pattern

/-!
# Throughput samples

A line such as `2074192 instructions/sec (2.07 MIPS)` carries one sample: the number of its first
parenthesis that holds a decimal and the unit.
-/

namespace BenchLedger.Throughput

open Text Decimal

/-- A parenthesis with a decimal and the unit `MIPS`. -/
def pattern : Pattern := [.fixed "(", .decimal, .blanks, .fixed "MIPS)"]

/-- The sample that a line carries, in millions of instructions per second: none if nothing of the
pattern is found, or if what is found denotes no number. -/
def sample? (line : String) : Option Float :=
  match pattern.find? line.toList with
  | some [run] => literal? run
  | _ => none

end BenchLedger.Throughput
