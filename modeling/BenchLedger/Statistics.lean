/-!
# Statistics

Mean, sample deviation and range of floating-point samples, and the most frequent item of a list.
Sums run from left to right from negative zero, the neutral element of addition. Of two samples the
lesser or the greater is chosen without regard to one that is not a number. Items are counted in a
tally, which keeps them in the order in which they were first seen.
-/

namespace BenchLedger.Statistics

def sum (xs : List Float) : Float := xs.foldl (· + ·) (-0.0)

/-- The arithmetic mean of a list that is not empty. -/
def mean? : List Float → Option Float
  | [] => none
  | xs => some (sum xs / Float.ofNat xs.length)

theorem mean?_eq_some_iff {xs : List Float} {x : Float} :
    mean? xs = some x ↔ xs ≠ [] ∧ x = sum xs / Float.ofNat xs.length := by
  cases xs with
  | nil => simp [mean?]
  | cons y ys => simp [mean?, eq_comm]

/-- The sample standard deviation, defined for two samples or more. -/
def deviation? (xs : List Float) : Option Float :=
  if xs.length < 2 then none
  else (mean? xs).map fun mean =>
    Float.sqrt (sum (xs.map fun x => (x - mean) * (x - mean)) / Float.ofNat (xs.length - 1))

/-- The lesser of two samples, the first of two equal ones. -/
def lesser (x y : Float) : Float := if x.isNaN || y < x then y else x

/-- The greater of two samples, the first of two equal ones. -/
def greater (x y : Float) : Float := if x.isNaN || x < y then y else x

def least? : List Float → Option Float
  | [] => none
  | x :: xs => some (xs.foldl lesser x)

def greatest? : List Float → Option Float
  | [] => none
  | x :: xs => some (xs.foldl greater x)

section Vote

variable {α : Type} [BEq α]

/-- Counts an item once more: where it was first seen, or at the end if it is new. -/
def addTo (item : α) : List (α × Nat) → List (α × Nat)
  | [] => [(item, 1)]
  | (seen, count) :: rest =>
    if seen == item then (seen, count + 1) :: rest else (seen, count) :: addTo item rest

/-- How often each item occurs, in the order in which the items were first seen. -/
def tally (items : List α) : List (α × Nat) :=
  items.foldl (fun counts item => addTo item counts) []

/-- The most frequent item; of several the one seen first. -/
def mostFrequent? (items : List α) : Option α := do
  let counts := tally items
  let most ← (counts.map Prod.snd).max?
  let winner ← counts.find? fun entry => entry.2 == most
  return winner.1

end Vote

end BenchLedger.Statistics
