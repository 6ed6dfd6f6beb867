import Offside.Text.Space
/-!
# Written integers

How a whole number is read from a text: white space at the two ends is skipped, a sign may come first, and the digits
follow, with at most one underscore between two of them.  A digit may come from any script that has decimal digits.
The four separator controls do not count as white space here, and more than `maxDigits` digits are refused.
-/
namespace Offside
namespace Text

/-- The digit zero of every script that has decimal digits; the other nine follow it in order. -/
def zeroDigits : List Nat :=
  [0x30, 0x660, 0x6f0, 0x7c0, 0x966, 0x9e6, 0xa66, 0xae6, 0xb66, 0xbe6, 0xc66, 0xce6, 0xd66, 0xde6, 0xe50,
   0xed0, 0xf20, 0x1040, 0x1090, 0x17e0, 0x1810, 0x1946, 0x19d0, 0x1a80, 0x1a90, 0x1b50, 0x1bb0, 0x1c40,
   0x1c50, 0xa620, 0xa8d0, 0xa900, 0xa9d0, 0xa9f0, 0xaa50, 0xabf0, 0xff10, 0x104a0, 0x10d30, 0x11066,
   0x110f0, 0x11136, 0x111d0, 0x112f0, 0x11450, 0x114d0, 0x11650, 0x116c0, 0x11730, 0x118e0, 0x11950,
   0x11c50, 0x11d50, 0x11da0, 0x16a60, 0x16ac0, 0x16b50, 0x1d7ce, 0x1d7d8, 0x1d7e2, 0x1d7ec, 0x1d7f6,
   0x1e140, 0x1e2f0, 0x1e950, 0x1fbf0]

def digit? (c : Char) : Option Nat :=
  (zeroDigits.find? (fun z => z ≤ c.toNat && c.toNat < z + 10)).map (c.toNat - ·)

/-- The most digits a written integer may have.  It limits what is read, and the indentation of an entry that is written
out (`Datum.written`).  The messages of faults leave it out and show an integer of any length. -/
def maxDigits : Nat := 4300

/-- The white space that may stand around a written integer. -/
def isPadding (c : Char) : Bool :=
  isSpace c && !(0x1c ≤ c.toNat && c.toNat ≤ 0x1f)

/-- The digits of an unsigned number, the first at the front. -/
def digits? : List Char → Option (List Nat)
  | [] => none
  | [c] => (digit? c).map ([·])
  | c :: '_' :: rest => do
    let d ← digit? c
    let ds ← digits? rest
    some (d :: ds)
  | c :: next :: rest => do
    let d ← digit? c
    let ds ← digits? (next :: rest)
    some (d :: ds)

def ofDigits (ds : List Nat) : Nat :=
  ds.foldl (fun n d => n * 10 + d) 0

/-- Why a text writes no integer. -/
inductive IntegerFault where
  | notInteger
  /-- It writes one with more digits than may be. -/
  | tooLong (digits : Nat)
deriving DecidableEq, Repr

/-- Whether a character may stand in an unsigned number. -/
def inNatural (c : Char) : Bool :=
  (digit? c).isSome || c == '_'

/-- The number that an unsigned text writes.  The digits at its front are counted before anything behind them is looked
at. -/
def readNatural (s : List Char) : Except IntegerFault Nat :=
  match digits? (s.takeWhile inNatural) with
  | none => .error .notInteger
  | some ds =>
    if maxDigits < ds.length then .error (.tooLong ds.length)
    else if s.dropWhile inNatural = [] then .ok (ofDigits ds)
    else .error .notInteger

def unpad (s : List Char) : List Char :=
  ((s.dropWhile isPadding).reverse.dropWhile isPadding).reverse

def readInteger (s : List Char) : Except IntegerFault Int :=
  match unpad s with
  | '-' :: rest => (readNatural rest).map (fun n => -(n : Int))
  | '+' :: rest => (readNatural rest).map Int.ofNat
  | rest => (readNatural rest).map Int.ofNat

/-- The integer that a text writes, if it writes one. -/
def integer? (s : List Char) : Option Int :=
  (readInteger s).toOption

end Text
end Offside
