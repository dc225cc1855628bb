import BenchLedger.Json.Number
import BenchLedger.Json.Quoted
import BenchLedger.Json.Value

/-!
# Printed documents

A document as indented JSON text: one field a line, two blanks for each level, and `null` for a
floating-point number that no JSON number denotes.
-/

namespace BenchLedger.Json

open Decimal

/-- The start of a line at a level of indentation. -/
def newLine (level : Nat) : List Char := '\n' :: List.replicate (2 * level) ' '

mutual

/-- A value whose fields, if it has any, are indented one level more than `level`. -/
def printAt (level : Nat) : Value → List Char
  | .boolean b => (if b then "true" else "false").toList
  | .natural n => digits n
  | .real x => (numberText? x).getD "null".toList
  | .text s => quoted s
  | .object [] => ['\x7b', '\x7d']
  | .object (field :: fields) =>
    '\x7b' :: newLine (level + 1) ++ printField (level + 1) field ++
      printFields (level + 1) fields ++ newLine level ++ ['\x7d']

/-- A field with its name. -/
def printField (level : Nat) : String × Value → List Char
  | (name, value) => quoted name ++ ": ".toList ++ printAt level value

/-- The fields that follow the first one, each after a comma and on its own line. -/
def printFields (level : Nat) : List (String × Value) → List Char
  | [] => []
  | field :: fields =>
    ',' :: newLine level ++ printField level field ++ printFields level fields

end

def Value.print (v : Value) : List Char := printAt 0 v

end BenchLedger.Json
