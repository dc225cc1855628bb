import BenchLedger.Decimal.Digits
import BenchLedger.Text.Pattern

/-!
# Profiler blocks

The figures that a device prints between the two sentinel lines of its profiler. A line supplies up
to three groups of figures, a group always whole; the block is the merge of its lines, in which a
later line wins group by group. A block without any group is no block.
-/

namespace BenchLedger.Profiler

open Text Decimal

/-- How the cycles of an average instruction are spent. -/
structure Cycles where
  fetch : UInt64
  fetchPercent : UInt64
  exec : UInt64
  execPercent : UInt64
  total : UInt64
  deriving DecidableEq

/-- Memory traffic in kilobytes per second. -/
structure Bandwidth where
  read : UInt64
  write : UInt64
  total : UInt64
  deriving DecidableEq

/-- What limits the speed. -/
inductive Bottleneck
  | cpu
  | psram
  /-- The profiler did not say. -/
  | unknown
  deriving DecidableEq

def Bottleneck.label : Bottleneck → String
  | .cpu => "CPU"
  | .psram => "PSRAM"
  | .unknown => "Unknown"

/-- The figures of one profiler block; an absent group was not printed. -/
structure Block where
  cycles : Option Cycles := none
  bandwidth : Option Bandwidth := none
  bottleneck : Option Bottleneck := none
  deriving DecidableEq

/-- The value of a run of digits, or the greatest representable value if it is too large. -/
def figure (run : List Char) : UInt64 := UInt64.ofNat (min (value run) 0xFFFFFFFFFFFFFFFF)

def cyclesPattern : Pattern :=
  [.fixed "Cycles/instr:", .blanks, .fixed "fetch=", .digits, .blanks, .fixed "(", .digits,
   .fixed "%)", .blanks, .fixed "exec=", .digits, .blanks, .fixed "(", .digits, .fixed "%)",
   .blanks, .fixed "total=", .digits]

def bandwidthPattern : Pattern :=
  [.fixed "PSRAM bandwidth:", .blanks, .fixed "read=", .digits, .fixed "KB/s", .blanks,
   .fixed "write=", .digits, .fixed "KB/s", .blanks, .fixed "total=", .digits, .fixed "KB/s"]

def cycles? (line : String) : Option Cycles :=
  match cyclesPattern.find? line.toList with
  | some [fetch, fetchPercent, exec, execPercent, total] =>
    some ⟨figure fetch, figure fetchPercent, figure exec, figure execPercent, figure total⟩
  | _ => none

def bandwidth? (line : String) : Option Bandwidth :=
  match bandwidthPattern.find? line.toList with
  | some [read, write, total] => some ⟨figure read, figure write, figure total⟩
  | _ => none

/-- The limiting part that a line names; the processor if it names both. -/
def bottleneck? (line : String) : Option Bottleneck :=
  if occursIn "BOTTLENECK: CPU".toList line.toList then some .cpu
  else if occursIn "BOTTLENECK: PSRAM".toList line.toList then some .psram
  else none

namespace Block

def isEmpty (b : Block) : Bool := b.cycles.isNone && b.bandwidth.isNone && b.bottleneck.isNone

/-- All cycles of an average instruction. -/
def cyclesTotal (b : Block) : Option UInt64 := b.cycles.map (·.total)

/-- The share of executing in percent. -/
def execPercent (b : Block) : Option UInt64 := b.cycles.map (·.execPercent)

def bandwidthTotal (b : Block) : Option UInt64 := b.bandwidth.map (·.total)

/-- The groups that one line supplies. -/
def ofLine (line : String) : Block := ⟨cycles? line, bandwidth? line, bottleneck? line⟩

/-- Joins two blocks group by group; where both have a group, the second block's counts. -/
def merge (a b : Block) : Block :=
  ⟨b.cycles <|> a.cycles, b.bandwidth <|> a.bandwidth, b.bottleneck <|> a.bottleneck⟩

/-- The groups that a list of lines supplies. -/
def ofLines (lines : List String) : Block := (lines.map ofLine).foldl merge {}

/-- The block that a list of lines describes, unless they supply no group. -/
def ofLines? (lines : List String) : Option Block :=
  let block := ofLines lines
  if block.isEmpty then none else some block

theorem merge_empty (b : Block) : merge b {} = b := by cases b; simp [merge]

theorem empty_merge (b : Block) : merge {} b = b := by
  cases b with
  | mk c w n => cases c <;> cases w <;> cases n <;> rfl

theorem merge_assoc (a b c : Block) : merge (merge a b) c = merge a (merge b c) := by
  cases c with
  | mk x y z => cases x <;> cases y <;> cases z <;> rfl

theorem foldl_merge (a : Block) (blocks : List Block) :
    blocks.foldl merge a = merge a (blocks.foldl merge {}) := by
  induction blocks generalizing a with
  | nil => simp [merge_empty]
  | cons b rest ih => simp only [List.foldl_cons, empty_merge, ih (merge a b), ih b, merge_assoc]

theorem ofLines_append (xs ys : List String) :
    ofLines (xs ++ ys) = merge (ofLines xs) (ofLines ys) := by
  rw [ofLines, List.map_append, List.foldl_append, foldl_merge]
  rfl

end Block

end BenchLedger.Profiler
