import BenchLedger.CommandLine.Help
import BenchLedger.Session.Run

/-!
# The program

The whole program as a function of its arguments, the environment and the world: it reads the
command line, checks the request, runs it, and turns the way in which it ends into an exit status
and an error report.
-/

namespace BenchLedger.CommandLine

open Decimal

structure Ending where
  status : Nat
  errors : String := ""

/-- A cause in an error report, numbered if there are several. Its further lines are indented to
stand below the first. -/
def causeText (number : Option Nat) (cause : String) : List Char :=
  let (lead, indent) := match number with
    | none => ("    ".toList, "    ".toList)
    | some n =>
      (List.replicate (5 - (digits n).length) ' ' ++ digits n ++ ": ".toList, "       ".toList)
  match cause.toList.splitOn '\n' with
  | [] => lead
  | first :: rest => ['\n'].intercalate ((lead ++ first) :: rest.map (indent ++ ·))

/-- The report of a failure: its words, and below them those of its causes. -/
def errorReport : List String → String
  | [] => ""
  | [failure] => "Error: " ++ failure ++ "\n"
  | [failure, cause] =>
    "Error: " ++ failure ++ "\n\nCaused by:\n" ++ String.ofList (causeText none cause) ++ "\n"
  | failure :: causes =>
    let numbered := causes.zipIdx.map fun (cause, n) => causeText (some n) cause
    "Error: " ++ failure ++ "\n\nCaused by:\n" ++ String.ofList (['\n'].intercalate numbered) ++ "\n"

/-- Runs a request unless it is rejected. -/
def perform (r : Request) (ports : Ports) (clock : Clock) (w : World) : Ending × World :=
  match r.rejection? with
  | some rejection => (⟨1, errorReport [rejection.message]⟩, w)
  | none =>
    match Run.fulfil ports r clock w with
    | .ok result w => (⟨result.exit.code, ""⟩, w)
    | .error e w => (⟨1, errorReport e.chain⟩, w)

def run (arguments : List String) (environment : String → Option String) (ports : Ports)
    (clock : Clock) (w : World) : Ending × World :=
  let refuse (e : UsageError) : Ending × World := (⟨2, "error: " ++ e.message ++ "\n"⟩, w)
  match wish arguments with
  | .error e => refuse e
  | .ok .version => (⟨0, ""⟩, { w with console := w.console.printLine versionText })
  | .ok .help => (⟨0, ""⟩, { w with console := w.console.printLine (helpText environment) })
  | .ok (.run c) =>
    match c.request environment with
    | .error e => refuse e
    | .ok r => perform r ports clock w

end BenchLedger.CommandLine
