import BenchLedger.CommandLine.Token
import BenchLedger.Decimal.Digits
import BenchLedger.Session.Request

/-!
# Choices

What a command line chooses, each option at most once, and the request that it amounts to together
with the environment. A setting that is not chosen is taken from the environment, if there is a
variable for it, and else has its usual value.
-/

namespace BenchLedger.CommandLine

open Decimal Disk

/-- The options chosen on a command line. -/
structure Choices where
  duration : Option Nat := none
  label : Option String := none
  port : Option String := none
  baud : Option UInt32 := none
  docs : Option Path := none
  record : Option Path := none
  replay : Option Path := none
  noSave : Bool := false
  verbose : Bool := false

/-- A natural number below a bound, perhaps with a plus sign. -/
def natural? (bound : Nat) (s : String) : Option Nat :=
  let ds := match s.toList with
    | '+' :: ds => ds
    | ds => ds
  if ds = [] ∨ !ds.all Char.isDigit ∨ bound ≤ value ds then none else some (value ds)

/-- A speed below `2 ^ 32`; a zero may have a minus sign. -/
def speed? (s : String) : Option UInt32 :=
  match s.toList with
  | '-' :: d :: ds => if (d :: ds).all (· = '0') then some 0 else none
  | _ => (natural? 0x100000000 s).map UInt32.ofNat

/-- A path that is not empty. -/
def path? (s : String) : Option Path := if s = "" then none else some (.ofString s)

/-- The refusal of a value that a setting does not take. The only such path is the empty one, and it
counts as no value. -/
def Key.refusal (key : Key) (value : String) : UsageError :=
  match key with
  | .docs | .record | .replay => .missingValue key
  | .duration | .label | .port | .baud => .badValue key value

/-- Gives an option that is not yet chosen the value that a text stands for. -/
def choose {α : Type} (key : Key) (old : Option α) (read : String → Option α) (value : String) :
    Except UsageError (Option α) :=
  if old.isSome then .error (.repeated key.shown)
  else match read value with
    | some a => .ok (some a)
    | none => .error (key.refusal value)

namespace Choices

def set (c : Choices) (key : Key) (value : String) : Except UsageError Choices :=
  match key with
  | .duration =>
    (choose key c.duration (natural? 0x10000000000000000) value).map fun x => { c with duration := x }
  | .label => (choose key c.label some value).map fun x => { c with label := x }
  | .port => (choose key c.port some value).map fun x => { c with port := x }
  | .baud => (choose key c.baud speed? value).map fun x => { c with baud := x }
  | .docs => (choose key c.docs path? value).map fun x => { c with docs := x }
  | .record => (choose key c.record path? value).map fun x => { c with record := x }
  | .replay => (choose key c.replay path? value).map fun x => { c with replay := x }

def raise (c : Choices) (f : Flag) : Except UsageError Choices :=
  match f with
  | .noSave => if c.noSave then .error (.repeated f.name) else .ok { c with noSave := true }
  | .verbose => if c.verbose then .error (.repeated f.name) else .ok { c with verbose := true }

end Choices

/-- What a command line asks for. -/
inductive Wish
  | run (c : Choices)
  | version
  | help

/-- Follows the tokens in order. The wish for the version or the help is granted at once, whatever
stands after it. -/
def follow (c : Choices) : List (Except UsageError Token) → Except UsageError Wish
  | [] => .ok (.run c)
  | .error e :: _ => .error e
  | .ok .version :: _ => .ok .version
  | .ok .help :: _ => .ok .help
  | .ok (.setting key value) :: rest =>
    match c.set key value with
    | .ok c => follow c rest
    | .error e => .error e
  | .ok (.flag f) :: rest =>
    match c.raise f with
    | .ok c => follow c rest
    | .error e => .error e

/-- What the arguments of a command line ask for. -/
def wish (arguments : List String) : Except UsageError Wish := follow {} (scan none arguments)

/-- A chosen value, or else the one that the environment gives, or else the usual one. -/
def orElseIn {α : Type} (key : Key) (chosen : Option α) (fallback : Option String)
    (read : String → Option α) (usual : α) : Except UsageError α :=
  match chosen, fallback with
  | some a, _ => .ok a
  | none, none => .ok usual
  | none, some value =>
    match read value with
    | some a => .ok a
    | none => .error (key.refusal value)

/-- The environment variable that gives a setting a value. -/
def Key.envName? : Key → Option String
  | .port => some "PERF_CAPTURE_PORT"
  | .docs => some "PERF_CAPTURE_DOCS_DIR"
  | _ => none

/-- The request that the chosen options amount to in an environment. -/
def Choices.request (c : Choices) (environment : String → Option String) :
    Except UsageError Request := do
  let usual : Settings := {}
  let given (key : Key) : Option String := key.envName?.bind environment
  let port ← orElseIn .port c.port (given .port) some usual.port
  let docs ← orElseIn .docs c.docs (given .docs) path? usual.docs
  let settings : Settings :=
    { usual with
      port := port
      baud := c.baud.getD usual.baud
      duration := (c.duration.map (· * 1000000000)).getD usual.duration
      docs }
  let plain : Request := {}
  return { settings
           label := c.label.getD plain.label
           save := !c.noSave
           record := c.record
           replay := c.replay }

end BenchLedger.CommandLine
