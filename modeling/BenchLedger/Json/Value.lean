/-!
# Documents

The values that a capture record is written with: objects whose fields keep their order, texts,
natural and floating-point numbers, and truth values.
-/

namespace BenchLedger.Json

inductive Value
  | boolean (b : Bool)
  | natural (n : Nat)
  | real (x : Float)
  | text (s : String)
  | object (fields : List (String × Value))

end BenchLedger.Json
