import BenchLedger.Disk.Tree

/-!
# Filing

What all files of a run have in common: how a path is made ready for a file, and how filing fails.
A path is ready if it is not empty, leads to no directory, and the directory it is in exists, which
is made if it is missing.
-/

namespace BenchLedger

open Disk

inductive FilingError
  | notWritten (cause : Disk.Error)
  | notEncoded (cause : Disk.Error)
  | unusablePath (reason : String)
  deriving DecidableEq

namespace FilingError

def message : FilingError → String
  | notWritten cause => "Failed to write file: " ++ cause.message
  | notEncoded cause => "Failed to serialize JSON: " ++ cause.message
  | unusablePath reason => "Invalid output path: " ++ reason

/-- The words for a failure and then for what caused it. -/
def chain (e : FilingError) : List String :=
  match e with
  | notWritten cause | notEncoded cause => [e.message, cause.message]
  | unusablePath _ => [e.message]

end FilingError

/-- An action on a file tree that may fail. What it did before it failed stays done. -/
abbrev Filing := EStateM FilingError Tree

namespace Filing

/-- Changes the tree by one operation of the disk. -/
def change (operation : Tree → Except Disk.Error Tree) : Filing Unit := fun t =>
  match operation t with
  | .ok t => .ok () t
  | .error e => .error (.notWritten e) t

/-- Makes a path ready for a file. -/
def makeReady (p : Path) : Filing Unit := fun t =>
  if p.isEmpty then .error (.unusablePath "Path is empty") t
  else if t.isDirectory p then .error (.unusablePath ("Path is a directory: " ++ p.text)) t
  else match p.parent? with
    | none => .ok () t
    | some parent =>
      if parent.isEmpty || t.exists? parent then .ok () t
      else match t.makeDirectories parent.withParents with
        | (.ok (), t) => .ok () t
        | (.error e, t) =>
          .error (.unusablePath ("Cannot create directory " ++ parent.text ++ ": " ++ e.message)) t

end Filing

end BenchLedger
