/-!
# Reading UTF-8

Bytes as characters, one byte at a time.  Between characters stands nothing; inside one the reader knows how many bytes
are still owed and which values the next of them may have (`Partial`).  The first byte that no character can have there
ends the reading.  A fault names the bytes of the character it interrupts: the ones already taken, or the faulty byte
alone where it should have begun a character.
-/
namespace Offside
namespace Utf8

/-- Why bytes are no text. -/
inductive Reason where
  /-- A byte that begins no character. -/
  | badStart
  /-- A character begun is not continued. -/
  | badContinuation
  /-- The bytes end inside a character. -/
  | unfinished
deriving DecidableEq, Repr

/-- Bytes that are no text: where they stand, which they are, and why. -/
structure Fault where
  offset : Nat
  bytes : List UInt8
  reason : Reason
deriving DecidableEq, Repr

/-- A character being read: where it began, its bytes so far, the value they give, how many bytes are owed, and the
range of the next of them. -/
structure Partial where
  offset : Nat
  bytes : List UInt8
  value : Nat
  owed : Nat
  low : Nat
  high : Nat
deriving DecidableEq, Repr

/-- What a byte that begins a character of two to four bytes leaves to read. -/
def begin? (offset : Nat) (byte : UInt8) : Option Partial :=
  let b := byte.toNat
  if b < 0xc2 then none
  else if b < 0xe0 then some ⟨offset, [byte], b - 0xc0, 1, 0x80, 0xbf⟩
  else if b < 0xf0 then
    some ⟨offset, [byte], b - 0xe0, 2, if b = 0xe0 then 0xa0 else 0x80, if b = 0xed then 0x9f else 0xbf⟩
  else if b < 0xf5 then
    some ⟨offset, [byte], b - 0xf0, 3, if b = 0xf0 then 0x90 else 0x80, if b = 0xf4 then 0x8f else 0xbf⟩
  else none

/-- A character with one more of its bytes. -/
def Partial.push (p : Partial) (byte : UInt8) : Partial :=
  ⟨p.offset, p.bytes ++ [byte], p.value * 64 + byte.toNat % 64, p.owed - 1, 0x80, 0xbf⟩

/-- Reads on from an offset, between characters or inside one. -/
def readFrom (offset : Nat) : Option Partial → List UInt8 → Except Fault (List Char)
  | none, [] => .ok []
  | some p, [] => .error ⟨p.offset, p.bytes, .unfinished⟩
  | none, byte :: rest =>
    if byte.toNat < 0x80 then (Char.ofNat byte.toNat :: ·) <$> readFrom (offset + 1) none rest
    else match begin? offset byte with
      | none => .error ⟨offset, [byte], .badStart⟩
      | some p => readFrom (offset + 1) (some p) rest
  | some p, byte :: rest =>
    if p.low ≤ byte.toNat && byte.toNat ≤ p.high then
      if p.owed = 1 then (Char.ofNat (p.push byte).value :: ·) <$> readFrom (offset + 1) none rest
      else readFrom (offset + 1) (some (p.push byte)) rest
    else .error ⟨p.offset, p.bytes, .badContinuation⟩

def read (bytes : List UInt8) : Except Fault (List Char) :=
  readFrom 0 none bytes

end Utf8
end Offside
