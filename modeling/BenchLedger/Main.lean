import BenchLedger.CommandLine.Program
import Std.Time.Zoned

/-!
# Command line

The program on a real disk. The entries that a request can touch are read into a file tree, the
program runs on it, and the entries that it changed are written back. No serial driver is built in,
so no port opens.
-/

namespace BenchLedger.CommandLine

open Disk

/-- How the system spells a place. -/
def spelled (place : Location) : String := String.ofList (['/'].intercalate ([] :: place))

/-- What stands at a place of the real disk. -/
def probe (place : Location) : IO (Option Entry) := do
  try
    let real ← IO.FS.realPath (spelled place)
    match (← real.metadata).type with
    | .dir => return some .directory
    | .file => return some (.file (← IO.FS.readBinFile real).toList)
    | _ => return some (if spelled place = "/dev/full" then .full else .sink)
  catch _ => return none

/-- Reads the entries on the way along some names into a tree. -/
def explore : List Name → Location → Tree → IO Tree
  | [], _, t => return t
  | name :: rest, here, t => do
    if name = [] ∨ name = dot then explore rest here t
    else if name = dotDot then explore rest here.dropLast t
    else
      match ← probe (here ++ [name]) with
      | none => return t
      | some e =>
        let t := t.put (here ++ [name]) e
        if e.isDirectory then explore rest (here ++ [name]) t else return t

/-- Reads the entries on the way to a path into a tree. -/
def explorePath (t : Tree) (p : Path) : IO Tree := explore p.body (t.origin p) t

/-- Reads the entries of a directory into a tree. -/
def exploreDirectory (t : Tree) (p : Path) : IO Tree := do
  let mut tree ← explorePath t p
  match tree.locate p with
  | .error _ => return tree
  | .ok place =>
    if (tree.get? place).any Entry.isDirectory then
      for found in ← (← IO.FS.realPath (spelled place)).readDir do
        tree ← explore [found.fileName.toList] place tree
    return tree

/-- The entries that a request can touch. -/
def survey (r : Request) : IO Tree := do
  let here := (Path.ofString (← IO.currentDir).toString).body
  let mut tree ← explore here [] { entries := [], workingDirectory := here }
  for p in r.replay.toList ++ r.record.toList ++ [r.settings.ledger] do
    tree ← explorePath tree p
  exploreDirectory tree r.settings.captures

/-- Writes an entry that changed back to the real disk. A file that only grew is appended to. -/
def writeBack (place : Location) (old : Option Entry) : Entry → IO Unit
  | .directory => IO.FS.createDir (spelled place)
  | .file content =>
    match old with
    | some (.file before) =>
      if before.isPrefixOf content then do
        let handle ← IO.FS.Handle.mk (spelled place) .append
        handle.write (content.drop before.length).toByteArray
      else IO.FS.writeBinFile (spelled place) content.toByteArray
    | _ => IO.FS.writeBinFile (spelled place) content.toByteArray
  | _ => return ()

/-- Writes what changed in a tree back to the real disk, in the order in which it was made. -/
def store (before after : Tree) : IO Unit := do
  for (place, e) in after.entries.reverse do
    let old := before.get? place
    if old ≠ some e then writeBack place old e

/-- The tree that a command line works on; the empty one if it does not ask for a run. -/
def treeFor (arguments : List String) (environment : String → Option String) : IO Tree := do
  match wish arguments with
  | .ok (.run c) =>
    match c.request environment with
    | .ok r => if r.rejection?.isNone then survey r else return { entries := [] }
    | .error _ => return { entries := [] }
  | _ => return { entries := [] }

/-- What the local clock shows, and how many seconds it is ahead of universal time. Where no time zone
is set, it shows universal time. -/
def localTime : IO (Moment × Int) := do
  let now ← Std.Time.Timestamp.now
  let offset ← try
      let rules ← Std.Time.Database.defaultGetLocalZoneRules
      pure (rules.timezoneAt now).offset.second.val
    catch _ => pure 0
  return (.ofUnix (now.toNanosecondsSinceUnixEpoch.val + offset * 1000000000), offset)

end BenchLedger.CommandLine

open BenchLedger BenchLedger.CommandLine in
/-- Runs the program on the real disk, the local clock and the environment. -/
def main (arguments : List String) : IO UInt32 := do
  let port ← IO.getEnv "PERF_CAPTURE_PORT"
  let docs ← IO.getEnv "PERF_CAPTURE_DOCS_DIR"
  let environment (name : String) : Option String :=
    if name = "PERF_CAPTURE_PORT" then port
    else if name = "PERF_CAPTURE_DOCS_DIR" then docs
    else none
  let before ← treeFor arguments environment
  let (now, offset) ← localTime
  let (ending, w) :=
    CommandLine.run arguments environment (fun _ => .error "No such file or directory")
      ⟨now, now, offset, 0⟩ { tree := before }
  store before w.tree
  try (← IO.getStdout).putStr w.console.written catch _ => pure ()
  (← IO.getStderr).putStr ending.errors
  return UInt32.ofNat ending.status
