import BenchLedger.Disk.Error
import BenchLedger.Disk.Path
import BenchLedger.Text.Utf8

/-!
# File trees

The files and directories below one top, with a working directory. Paths are resolved one name after
another through directories that must exist, and every operation either changes one entry or is
refused and changes nothing.
-/

namespace BenchLedger.Disk

open Text

/-- A place in a tree: the names that lead to it from the top. -/
abbrev Location := List Name

/-- What stands at a place. -/
inductive Entry
  | file (content : List UInt8)
  | directory
  /-- A directory in which nothing exists and nothing can be made. -/
  | barren
  | sink
  | full
  deriving DecidableEq

/-- Whether an entry can be passed through. -/
def Entry.isDirectory : Entry → Bool
  | .directory | .barren => true
  | _ => false

structure Tree where
  /-- What stands at which place, each place once. The top is a directory and is not listed. -/
  entries : List (Location × Entry)
  /-- Where paths start that do not start at the top. -/
  workingDirectory : Location := []

namespace Tree

def get? (t : Tree) (place : Location) : Option Entry :=
  if place = [] then some .directory else t.entries.lookup place

/-- Puts an entry at a place, instead of what stands there. -/
def put (t : Tree) (place : Location) (e : Entry) : Tree :=
  { t with entries := (place, e) :: t.entries.filter fun x => x.1 ≠ place }

/-- Whether a name is too long to exist. -/
def isTooLong (name : Name) : Bool := decide (255 < (Utf8.encode name).length)

/-- One step of a walk through directories. -/
def enter (t : Tree) (here : Location) (name : Name) : Except Error Location :=
  match t.get? here with
  | none => .error .notFound
  | some e =>
    if !e.isDirectory then .error .notDirectory
    else if name = [] ∨ name = dot then .ok here
    else if name = dotDot then .ok here.dropLast
    else if isTooLong name then .error .nameTooLong
    else if (t.get? (here ++ [name])).isSome then .ok (here ++ [name])
    else .error .notFound

def walk (t : Tree) : Location → List Name → Except Error Location
  | here, [] => .ok here
  | here, name :: names =>
    match t.enter here name with
    | .ok next => walk t next names
    | .error e => .error e

def origin (t : Tree) (p : Path) : Location := if p.isAbsolute then [] else t.workingDirectory

/-- Refuses a path that no operation can use. -/
def admit? (p : Path) : Option Error :=
  if '\x00' ∈ p.toChars then some .nulInName
  else if p.isEmpty then some .notFound
  else if 4096 ≤ (Utf8.encode p.toChars).length then some .nameTooLong
  else none

/-- The place of something that exists. -/
def locate (t : Tree) (p : Path) : Except Error Location :=
  match admit? p with
  | some e => .error e
  | none => t.walk (t.origin p) p.body

/-- Where a path says that something is to be made. -/
inductive Site
  /-- A name in an existing directory, perhaps with slashes after it. -/
  | named (parent : Location) (name : Name) (slashed : Bool)
  /-- A directory that exists whenever the path leads anywhere: the top, or one spelled by dots. -/
  | standing

/-- The place that a path names for something that need not exist yet. -/
def site (t : Tree) (p : Path) : Except Error Site :=
  match admit? p with
  | some e => .error e
  | none =>
    match p.body.reverse.dropWhile (· = []) with
    | [] => .ok .standing
    | last :: before =>
      match t.walk (t.origin p) before.reverse with
      | .error e => .error e
      | .ok parent =>
        match t.get? parent with
        | none => .error .notFound
        | some e =>
          if !e.isDirectory then .error .notDirectory
          else if last = dot ∨ last = dotDot then .ok .standing
          else .ok (.named parent last (p.body.getLast? = some []))

/-- Puts an entry where nothing stands. -/
def add (t : Tree) (parent : Location) (name : Name) (e : Entry) : Except Error Tree :=
  if isTooLong name then .error .nameTooLong
  else if (t.get? (parent ++ [name])).isSome then .error .exists
  else if t.get? parent = some .barren then .error .notFound
  else .ok (t.put (parent ++ [name]) e)

def isDirectory (t : Tree) (p : Path) : Bool :=
  match t.locate p with
  | .ok place => (t.get? place).any Entry.isDirectory
  | .error _ => false

def exists? (t : Tree) (p : Path) : Bool :=
  match t.locate p with
  | .ok _ => true
  | .error _ => false

/-- The bytes of a file. A device gives nothing. -/
def read (t : Tree) (p : Path) : Except Error (List UInt8) :=
  match t.locate p with
  | .error e => .error e
  | .ok place =>
    match t.get? place with
    | some (.file content) => .ok content
    | some .sink | some .full => .ok []
    | some .directory | some .barren => .error .isDirectory
    | none => .error .notFound

/-- Makes a directory whose parent exists. -/
def makeDirectory (t : Tree) (p : Path) : Except Error Tree :=
  match t.site p with
  | .error e => .error e
  | .ok .standing => .error .exists
  | .ok (.named parent name _) => t.add parent name .directory

/-- Makes a file that must not exist yet. -/
def createNew (t : Tree) (p : Path) (content : List UInt8) : Except Error Tree :=
  match t.site p with
  | .error e => .error e
  | .ok .standing => .error .exists
  | .ok (.named parent name slashed) =>
    if slashed then .error .isDirectory else t.add parent name (.file content)

/-- What stands at a place after bytes are written to it: a file with the content that `update`
makes of the old one, or a device as before. -/
def Entry.write (e : Entry) (update : List UInt8 → List UInt8) (isNothing : Bool) :
    Except Error Entry :=
  match e with
  | .file content => .ok (.file (update content))
  | .sink => .ok .sink
  | .full => if isNothing then .ok .full else .error .noSpace
  | .directory | .barren => .error .isDirectory

/-- Adds bytes at the end of a file that exists. -/
def append (t : Tree) (p : Path) (bytes : List UInt8) : Except Error Tree :=
  match t.locate p with
  | .error e => .error e
  | .ok place =>
    match t.get? place with
    | none => .error .notFound
    | some old => (Entry.write old (· ++ bytes) bytes.isEmpty).map (t.put place)

/-- Gives a file a content, whether or not it exists. -/
def replace (t : Tree) (p : Path) (content : List UInt8) : Except Error Tree :=
  match t.site p with
  | .error e => .error e
  | .ok .standing => .error .isDirectory
  | .ok (.named parent name slashed) =>
    if slashed then .error .isDirectory
    else if isTooLong name then .error .nameTooLong
    else match t.get? (parent ++ [name]) with
      | none => t.add parent name (.file content)
      | some old =>
        (Entry.write old (fun _ => content) content.isEmpty).map (t.put (parent ++ [name]))

/-- Makes the first of a list of directories, each above the one before it, after making those
above it as far as they are missing. The tree keeps what was made before a refusal. -/
def makeDirectories (t : Tree) : List Path → Except Error Unit × Tree
  | [] => (.ok (), t)
  | p :: above =>
    if p.isEmpty then (.ok (), t)
    else match t.makeDirectory p with
      | .ok t => (.ok (), t)
      | .error .notFound =>
        if above = [] then (.error .notFound, t)
        else match makeDirectories t above with
          | (.error e, t) => (.error e, t)
          | (.ok (), t) =>
            match t.makeDirectory p with
            | .ok t => (.ok (), t)
            | .error e => (if t.isDirectory p then .ok () else .error e, t)
      | .error e => (if t.isDirectory p then .ok () else .error e, t)

theorem get?_put_self {t : Tree} {place : Location} (h : place ≠ []) (e : Entry) :
    (t.put place e).get? place = some e := by
  simp [get?, put, h]

theorem lookup_filter_of_ne {entries : List (Location × Entry)} {place other : Location}
    (h : other ≠ place) :
    (entries.filter fun x => x.1 ≠ place).lookup other = entries.lookup other := by
  induction entries with
  | nil => rfl
  | cons x xs ih =>
    obtain ⟨key, e⟩ := x
    by_cases hk : key = place
    · have hn : (other == key) = false := by simpa [hk] using h
      simp only [hk, ne_eq, not_true_eq_false, decide_false, Bool.false_eq_true, not_false_eq_true,
        List.filter_cons_of_neg, List.lookup_cons]
      rw [← hk, hn]
      simpa [hk] using ih
    · by_cases ho : other = key
      · subst ho; simp [hk]
      · have hn : (other == key) = false := by simpa using ho
        simp only [ne_eq, hk, not_false_eq_true, decide_true, List.filter_cons_of_pos,
          List.lookup_cons, hn]
        simpa using ih

theorem get?_put_of_ne {t : Tree} {place other : Location} (h : other ≠ place) (e : Entry) :
    (t.put place e).get? other = t.get? other := by
  have hn : (other == place) = false := by simpa using h
  simp only [get?, put, List.lookup_cons, hn]
  rw [lookup_filter_of_ne h]

end Tree

end BenchLedger.Disk
