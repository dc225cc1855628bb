/-!
# Console

Standard output as far as a run uses it: lines are written one after another. What is written to a
console that does not work is lost, and nothing else happens.
-/

namespace BenchLedger

/-- A console and what was written to it. -/
structure Console where
  working : Bool := true
  written : String := ""

/-- Writes a text, and says whether that succeeded. -/
def Console.write (c : Console) (text : String) : Bool × Console :=
  if c.working then (true, { c with written := c.written ++ text }) else (false, c)

/-- Writes a text and a line feed, whether or not that succeeds. -/
def Console.printLine (c : Console) (text : String) : Console := (c.write (text ++ "\n")).2

theorem Console.printLine_of_working {c : Console} (h : c.working = true) (text : String) :
    c.printLine text = { c with written := c.written ++ (text ++ "\n") } := by
  simp [printLine, write, h]

theorem Console.printLine_of_not_working {c : Console} (h : c.working = false) (text : String) :
    c.printLine text = c := by
  simp [printLine, write, h]

end BenchLedger
