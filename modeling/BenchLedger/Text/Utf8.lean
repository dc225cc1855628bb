/-!
# UTF-8

Encoding of characters, and decoding of arbitrary bytes. The decoder reads one byte at a time: a
byte that starts a character opens a `Partial`, which the continuation bytes fill. A byte that does
not fit closes the open character as one U+FFFD and is read again as a first byte, so every maximal
ill-formed run becomes exactly one U+FFFD and no byte outside such a run is lost.
-/

namespace BenchLedger.Text.Utf8

/-- A character of which some bytes are read and some are still awaited. -/
structure Partial where
  /-- How many continuation bytes are missing, less one. -/
  more : Nat
  low : UInt8
  high : UInt8
  /-- The bits of the code point read so far. -/
  bits : Nat

/-- The character U+FFFD that stands for an ill-formed run of bytes. -/
def replacement : Char := '\uFFFD'

/-- What a byte means when no character is open. -/
inductive Lead
  | whole (c : Char)
  | opens (p : Partial)
  | stray

/-- The meaning of a byte when no character is open. The second byte of a character is restricted
after `E0`, `ED`, `F0` and `F4`, which rules out overlong forms, surrogates and code points past
U+10FFFF. -/
def lead (b : UInt8) : Lead :=
  if b < 0x80 then .whole (Char.ofNat b.toNat)
  else if b < 0xC2 then .stray
  else if b < 0xE0 then .opens ⟨0, 0x80, 0xBF, b.toNat - 0xC0⟩
  else if b < 0xF0 then
    .opens ⟨1, if b = 0xE0 then 0xA0 else 0x80, if b = 0xED then 0x9F else 0xBF, b.toNat - 0xE0⟩
  else if b < 0xF5 then
    .opens ⟨2, if b = 0xF0 then 0x90 else 0x80, if b = 0xF4 then 0x8F else 0xBF, b.toNat - 0xF0⟩
  else .stray

/-- The result of a first byte: the character it completes, if any, and the character it opens. -/
def start (b : UInt8) : List Char × Option Partial :=
  match lead b with
  | .whole c => ([c], none)
  | .opens p => ([], some p)
  | .stray => ([replacement], none)

/-- The result of a byte: the characters it completes and the character left open. -/
def step (held : Option Partial) (b : UInt8) : List Char × Option Partial :=
  match held with
  | none => start b
  | some p =>
    if p.low ≤ b ∧ b ≤ p.high then
      let bits := p.bits * 64 + (b.toNat - 0x80)
      match p.more with
      | 0 => ([Char.ofNat bits], none)
      | more + 1 => ([], some ⟨more, 0x80, 0xBF, bits⟩)
    else (replacement :: (start b).1, (start b).2)

/-- The characters of the bytes that follow an open character. -/
def decodeFrom : Option Partial → List UInt8 → List Char
  | none, [] => []
  | some _, [] => [replacement]
  | held, b :: bs => (step held b).1 ++ decodeFrom (step held b).2 bs

/-- The text of any bytes, each maximal ill-formed run read as one U+FFFD. -/
def decode (bs : List UInt8) : List Char := decodeFrom none bs

def encode (cs : List Char) : List UInt8 := cs.flatMap String.utf8EncodeChar

theorem decode_nil : decode [] = [] := rfl

theorem encode_append (cs ds : List Char) : encode (cs ++ ds) = encode cs ++ encode ds := by
  simp [encode]

end BenchLedger.Text.Utf8
