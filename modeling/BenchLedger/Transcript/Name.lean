import BenchLedger.Calendar
import BenchLedger.Text.Blank

/-!
# Transcript names

The name of the file that keeps the lines of a capture: when it started and its label. Blank
characters and both kinds of slash become underscores, so that the name is a single word and cannot
lead into another directory.
-/

namespace BenchLedger.Transcript

open Text

/-- The character that stands for a character of the label. -/
def nameChar (c : Char) : Char := if isBlank c || c == '/' || c == '\\' then '_' else c

def stem (label : String) (started : Moment) : List Char :=
  started.fileStamp ++ '_' :: label.toList.map nameChar

def name (label : String) (started : Moment) : List Char :=
  stem label started ++ ".txt".toList

end BenchLedger.Transcript
