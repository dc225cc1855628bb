import BenchLedger.Text.Search

/-!
# Reading documents

A reader for the part of JSON that documents use: no arrays, and no escaped surrogates. A number is
a run of the characters of numbers, and is kept as its text.
-/

namespace BenchLedger.Json

open Text

/-- What is read from a document. -/
inductive Reading
  | null
  | boolean (b : Bool)
  | number (text : List Char)
  | text (cs : List Char)
  | object (fields : List (List Char × Reading))

/-- The value of the first field with a name. -/
def Reading.field? (name : String) : Reading → Option Reading
  | .object fields => fields.lookup name.toList
  | _ => none

def Reading.text? : Reading → Option (List Char)
  | .text cs => some cs
  | _ => none

def isSpace (c : Char) : Bool := c = ' ' ∨ c = '\n' ∨ c = '\r' ∨ c = '\t'

def skip (cs : List Char) : List Char := cs.dropWhile isSpace

/-- Whether a character can belong to a number. -/
def isNumeral (c : Char) : Bool :=
  c.isDigit ∨ c = '-' ∨ c = '+' ∨ c = '.' ∨ c = 'e' ∨ c = 'E'

def hexValue? (c : Char) : Option Nat :=
  if '0' ≤ c ∧ c ≤ '9' then some (c.toNat - '0'.toNat)
  else if 'a' ≤ c ∧ c ≤ 'f' then some (c.toNat - 'a'.toNat + 10)
  else if 'A' ≤ c ∧ c ≤ 'F' then some (c.toNat - 'A'.toNat + 10)
  else none

/-- The character with a code of four hexadecimal digits, unless it is a surrogate. -/
def codePoint? (a b c d : Char) : Option Char := do
  let high := 16 * (← hexValue? a) + (← hexValue? b)
  let low := 16 * (← hexValue? c) + (← hexValue? d)
  let code := 256 * high + low
  if code.isValidChar then some (Char.ofNat code) else none

/-- The character that a letter behind a backslash stands for. -/
def unescape? : Char → Option Char
  | '"' => some '"'
  | '\\' => some '\\'
  | '/' => some '/'
  | 'b' => some '\x08'
  | 'f' => some '\x0c'
  | 'n' => some '\n'
  | 'r' => some '\r'
  | 't' => some '\t'
  | _ => none

/-- Puts a character in front of a text that was read. -/
def readOn (c : Option Char) (read : Option (List Char × List Char)) :
    Option (List Char × List Char) := do
  let c ← c
  let (cs, rest) ← read
  return (c :: cs, rest)

/-- The text up to the closing quotation mark, and what follows this mark. -/
def readText : List Char → Option (List Char × List Char)
  | '"' :: rest => some ([], rest)
  | '\\' :: 'u' :: h₁ :: h₂ :: h₃ :: h₄ :: rest => readOn (codePoint? h₁ h₂ h₃ h₄) (readText rest)
  | '\\' :: e :: rest => readOn (unescape? e) (readText rest)
  | c :: rest => if c.toNat < 32 then none else readOn (some c) (readText rest)
  | [] => none

/-- A literal name or a number. -/
def readPlain (cs : List Char) : Option (Reading × List Char) :=
  match after? "true".toList cs, after? "false".toList cs, after? "null".toList cs with
  | some rest, _, _ => some (.boolean true, rest)
  | _, some rest, _ => some (.boolean false, rest)
  | _, _, some rest => some (.null, rest)
  | none, none, none =>
    if cs.takeWhile isNumeral = [] then none
    else some (.number (cs.takeWhile isNumeral), cs.dropWhile isNumeral)

/-- A name with the colon behind it. -/
def readName (cs : List Char) : Option (List Char × List Char) :=
  match skip cs with
  | '"' :: rest =>
    match readText rest with
    | some (name, rest) =>
      match skip rest with
      | ':' :: rest => some (name, rest)
      | _ => none
    | none => none
  | _ => none

mutual

/-- A value at the start of a text, and what follows it. -/
def readValue : Nat → List Char → Option (Reading × List Char)
  | 0, _ => none
  | fuel + 1, cs =>
    match skip cs with
    | '"' :: rest => (readText rest).map fun (cs, rest) => (.text cs, rest)
    | '\x7b' :: rest =>
      match skip rest with
      | '\x7d' :: rest => some (.object [], rest)
      | _ => (readFields fuel rest).map fun (fields, rest) => (.object fields, rest)
    | rest => readPlain rest

/-- The fields up to the closing brace, of which there is at least one. -/
def readFields : Nat → List Char → Option (List (List Char × Reading) × List Char)
  | 0, _ => none
  | fuel + 1, cs =>
    match readName cs with
    | none => none
    | some (name, rest) =>
      match readValue fuel rest with
      | none => none
      | some (value, rest) =>
        match skip rest with
        | '\x7d' :: rest => some ([(name, value)], rest)
        | ',' :: rest =>
          (readFields fuel rest).map fun (fields, rest) => ((name, value) :: fields, rest)
        | _ => none

end

/-- Reads a document. -/
def read? (cs : List Char) : Option Reading :=
  match readValue (cs.length + 1) cs with
  | some (value, rest) => if skip rest = [] then some value else none
  | none => none

end BenchLedger.Json
