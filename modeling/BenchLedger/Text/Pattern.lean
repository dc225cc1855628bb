import BenchLedger.Text.Blank
import BenchLedger.Text.Search

/-!
# Line patterns

A pattern is a sequence of pieces: fixed texts, runs of blank characters and runs of digits.
`match?` reads a pattern at the start of a text and `find?` at the leftmost place where it can be
read; both return the captured runs. Each run is taken whole. That loses no reading, because in
every pattern here what follows a run starts with a character that cannot belong to the run.
-/

namespace BenchLedger.Text

/-- One piece of a line pattern. -/
inductive Piece
  | fixed (text : String)
  /-- A run of blank characters, perhaps empty. -/
  | blanks
  | digits
  /-- One or more ASCII digits, perhaps a point, perhaps more digits, captured as one text. -/
  | decimal

/-- A line pattern. -/
abbrev Pattern := List Piece

namespace Pattern

/-- Splits a text after its leading run of ASCII digits; `none` if there is no digit. -/
def digits? (cs : List Char) : Option (List Char × List Char) :=
  match cs.takeWhile Char.isDigit with
  | [] => none
  | d :: ds => some (d :: ds, cs.dropWhile Char.isDigit)

/-- Splits a text after the decimal number that it starts with. -/
def decimal? (cs : List Char) : Option (List Char × List Char) :=
  match digits? cs with
  | none => none
  | some (whole, '.' :: rest) =>
    some (whole ++ '.' :: rest.takeWhile Char.isDigit, rest.dropWhile Char.isDigit)
  | some (whole, rest) => some (whole, rest)

/-- The captured runs of a pattern read at the start of a text. -/
def match? : Pattern → List Char → Option (List (List Char))
  | [], _ => some []
  | .fixed text :: p, cs =>
    match after? text.toList cs with
    | some rest => match? p rest
    | none => none
  | .blanks :: p, cs => match? p (cs.dropWhile isBlank)
  | .digits :: p, cs =>
    match digits? cs with
    | some (run, rest) => (match? p rest).map (run :: ·)
    | none => none
  | .decimal :: p, cs =>
    match decimal? cs with
    | some (run, rest) => (match? p rest).map (run :: ·)
    | none => none

/-- The captured runs of a pattern at the leftmost place where it can be read. -/
def find? (p : Pattern) : List Char → Option (List (List Char))
  | [] => match? p []
  | c :: cs =>
    match match? p (c :: cs) with
    | some runs => some runs
    | none => find? p cs

end Pattern

end BenchLedger.Text
