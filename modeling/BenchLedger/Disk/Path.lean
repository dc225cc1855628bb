/-!
# Paths

A path is the list of its segments between slashes, so that no spelling is lost: a path from the top
starts with an empty segment, and the empty path is one empty segment. Joining, the parent and the
change of the last name work on segments.
-/

namespace BenchLedger.Disk

/-- A name between two slashes. -/
abbrev Name := List Char

/-- The name that stands for the directory itself. -/
def dot : Name := ['.']

/-- The name that stands for the directory above. -/
def dotDot : Name := ['.', '.']

structure Path where
  segments : List Name
  deriving DecidableEq

namespace Path

def ofChars (cs : List Char) : Path := ⟨cs.splitOn '/'⟩

def ofString (s : String) : Path := ofChars s.toList

def toChars (p : Path) : List Char := ['/'].intercalate p.segments

def text (p : Path) : String := String.ofList p.toChars

/-- Whether a path is spelled with no character at all. -/
def isEmpty (p : Path) : Bool := p.toChars.isEmpty

def isAbsolute (p : Path) : Bool :=
  match p.segments with
  | [] :: _ :: _ => true
  | _ => false

/-- The segments that follow the slash at the top, if there is one. -/
def body (p : Path) : List Name := if p.isAbsolute then p.segments.tail else p.segments

/-- A path within a directory; a path from the top stays what it is. -/
def join (p q : Path) : Path :=
  if q.isAbsolute || p.isEmpty then q
  else
    let front := if p.segments.getLast? = some [] then p.segments.dropLast else p.segments
    ⟨front ++ q.segments⟩

/-- The segments without those at the end that lead nowhere. A dot that starts a path which does
not start at the top stays. -/
def dropIdle (absolute : Bool) (segments : List Name) : List Name :=
  match (segments.reverse.dropWhile fun s => s = [] ∨ s = dot).reverse with
  | [] => if !absolute ∧ segments.head? = some dot then [dot] else []
  | kept => kept

/-- The path of the directory that a path is in: none for the top and for the empty path, the empty
path for a single name. -/
def parent? (p : Path) : Option Path :=
  match dropIdle p.isAbsolute p.body with
  | [] => none
  | names =>
    let above := match dropIdle p.isAbsolute names.dropLast with
      | [] => [[]]
      | above => above
    some ⟨if p.isAbsolute then [] :: above else above⟩

/-- The path and all directories above it, the nearest first, up to a number of steps. -/
def upward : (steps : Nat) → Path → List Path
  | 0, p => [p]
  | steps + 1, p =>
    match p.parent? with
    | none => [p]
    | some q => p :: upward steps q

def withParents (p : Path) : List Path := upward p.segments.length p

/-- The path of a neighbour: the same directory and another name. -/
def withName (p : Path) (name : Name) : Path := (p.parent?.getD ⟨[[]]⟩).join ⟨[name]⟩

/-- A file name without its ending: what precedes the last dot, or all of it if no dot follows its
first character. -/
def stem (name : Name) : Name :=
  match (name.reverse.dropWhile (· ≠ '.')).drop 1 with
  | [] => name
  | front => front.reverse

end Path

end BenchLedger.Disk
