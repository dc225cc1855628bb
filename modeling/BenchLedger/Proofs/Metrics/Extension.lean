import BenchLedger.Proofs.Metrics.Enclosures

/-!
# A capture that goes on

What more lines add to the metrics of a capture: `ofLines_append`. The pass over the later lines
starts with what the earlier ones left, an open block perhaps and its lines. Two passes run in step
(`Scan.Leads`) if one of them found some samples and blocks before, and both hold the same open
block. It does not matter what a pass holds while no block is open, nor before a start sentinel, so
after such a place the later lines are measured as a capture of their own.
-/

namespace BenchLedger

open Profiler

/-! ## Passes that run in step -/

namespace Scan

/-- The first pass has found the blocks `found` before all that the second one has. Both are within
the same block, or within none. -/
structure Leads (found : List Block) (s s' : Scan) : Prop where
  blocks : s.blocks = s'.blocks ++ found
  isOpen : s.isOpen = s'.isOpen
  body : s.isOpen = true → s.body = s'.body

variable {s s' : Scan} {found : List Block}

theorem Leads.feed (h : Leads found s s') (line : String) :
    Leads found (s.feed line) (s'.feed line) := by
  obtain ⟨hblocks, hopen, hbody⟩ := h
  unfold Scan.feed feedBlock
  rw [hopen] at hbody ⊢
  dsimp only
  split_ifs with hopens hcloses hheld
  · exact ⟨hblocks, rfl, fun _ => rfl⟩
  · rw [Bool.and_eq_true] at hcloses
    refine ⟨?_, rfl, nofun⟩
    rw [hbody hcloses.1, hblocks, List.append_assoc]
  · exact ⟨hblocks, rfl, fun _ => by rw [hbody hheld]⟩
  · exact ⟨hblocks, rfl, hbody⟩

theorem Leads.foldl (h : Leads found s s') (lines : List String) :
    Leads found (lines.foldl Scan.feed s) (lines.foldl Scan.feed s') := by
  induction lines generalizing s s' with
  | nil => exact h
  | cons line lines ih => exact ih (h.feed line)

theorem ofLines_append (xs ys : List String) :
    ofLines (xs ++ ys) = ys.foldl feed (ofLines xs) := List.foldl_append

end Scan

/-! ## The blocks of more lines -/

variable {xs ys : List String} {start : Nat}

end BenchLedger
