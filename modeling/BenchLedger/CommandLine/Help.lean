import BenchLedger.CommandLine.Choices

/-!
# Help

What the program tells about itself: its version, and its options. A line of the help names an
option, says what it is for, and adds the variable that gives it a value, with what the environment
holds for it, and the value that it has by default. What options are for stands in one column.
-/

namespace BenchLedger.CommandLine

open Decimal

def versionText : String := "perf-capture 0.1.0"

/-- An option in the help. -/
structure HelpLine where
  letter : Option Char := none
  /-- Its long name and what stands for its value. -/
  spelling : String
  purpose : String
  /-- What is added in brackets. -/
  notes : List String := []

/-- A line of the help in which the spellings take up some width. -/
def HelpLine.text (width : Nat) (l : HelpLine) : String :=
  let lead := match l.letter with
    | some c => String.ofList ['-', c, ',', ' ']
    | none => "    "
  let gap := String.ofList (List.replicate (width - l.spelling.length) ' ')
  "  " ++ lead ++ l.spelling ++ gap ++ "  " ++ l.purpose ++
    String.join (l.notes.map fun note => " [" ++ note ++ "]")

example :
    HelpLine.text 9 { letter := some 'v', spelling := "--verbose", purpose := "Be verbose" } =
      "  -v, --verbose  Be verbose" := by decide

def defaultNote (value : String) : String := "default: " ++ value

/-- The variable of a setting and what the environment holds for it. -/
def Key.variableNotes (key : Key) (environment : String → Option String) : List String :=
  (key.envName?.map fun name => "env: " ++ name ++ "=" ++ (environment name).getD "").toList

/-- The options in the order of the help. -/
def helpLines (environment : String → Option String) : List HelpLine :=
  let usual : Settings := {}
  let plain : Request := {}
  let number (n : Nat) : String := String.ofList (digits n)
  [{ letter := some 'd', spelling := Key.duration.shown, purpose := "Capture duration in seconds"
     notes := [defaultNote (number (usual.duration / 1000000000))] },
   { letter := some 'l', spelling := Key.label.shown, purpose := "Label for this capture"
     notes := [defaultNote plain.label] },
   { letter := some 'p', spelling := Key.port.shown
     purpose := "Serial port (fallback ports are tried if it cannot be opened)"
     notes := Key.port.variableNotes environment ++ [defaultNote usual.port] },
   { spelling := Key.baud.shown, purpose := "Serial baud rate"
     notes := [defaultNote (number usual.baud.toNat)] },
   { spelling := Key.docs.shown
     purpose := "Directory holding the tracking ledger and raw captures"
     notes := Key.docs.variableNotes environment ++ [defaultNote usual.docs.text] },
   { spelling := Flag.noSave.name
     purpose := "Do not save raw capture or update tracking ledger" },
   { spelling := Key.record.shown, purpose := "Also write the summary as JSON to this path" },
   { spelling := Key.replay.shown
     purpose := "Analyze a saved transcript instead of reading the serial port" },
   { letter := some 'v', spelling := Flag.verbose.name, purpose := "Enable verbose logging" },
   { letter := some 'h', spelling := "--help", purpose := "Print help" },
   { letter := some 'V', spelling := "--version", purpose := "Print version" }]

/-- The help without a line feed at its end. -/
def helpText (environment : String → Option String) : String :=
  let lines := helpLines environment
  let width := (lines.map fun l => l.spelling.length).max?.getD 0
  "Capture serial telemetry for a fixed window, extract performance metrics and append them to a " ++
    "tracking ledger\n\nUsage: perf-capture [OPTIONS]\n\nOptions:\n" ++
    "\n".intercalate (lines.map (HelpLine.text width))

end BenchLedger.CommandLine
