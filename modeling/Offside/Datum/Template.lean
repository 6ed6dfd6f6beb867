import Offside.Datum.Arithmetic
/-!
# Filling a value into a text

Dividing a text by a value fills the value into it.  A per cent sign in the text marks a place, and a letter behind it
says how the value is written there: `s` as it is inside a sentence, `r` and `a` between quotes, `d`, `i` and `u` as an
integer, `o` and `x` as an integer that must be one by its kind, `e`, `f` and `g` as a fraction, and `c` as a character.
Between the sign and the letter may stand, in this order, a name between brackets, flags, the least width, the greatest
length behind a point, and a size that means nothing.  A star in place of a number takes the value for it.

One value fills one place.  Only a record, and a row as far as that goes, may be left over, and a name in brackets takes
a record's value of that name for the place.  Two signs together are no place, but one sign.

Nobody reads the filled text.  What counts is whether there is any (`Datum.leavesRest`), and every way to fail.
-/
namespace Offside

/-- Why a value cannot be filled into a text. -/
inductive TemplateError where
  /-- The text ends inside a place. -/
  | unfinished
  /-- The text ends inside a name. -/
  | unfinishedName
  /-- A place has a name, but the value is no record. -/
  | noNames
  /-- A place has a name, but the value is a row. -/
  | rowName
  /-- A record has no value of a name. -/
  | unknownName (name : String)
  /-- There is a value, but no place for it. -/
  | leftOver
  /-- There is a place, but no value for it. -/
  | usedUp
  | widthTooLarge
  | limitTooLarge
  /-- The greatest length is too large for an integer to be written so. -/
  | limitTooLong
  /-- A star took a value that is no integer. -/
  | starKind
  /-- A star took an integer that is too large for the numbers of a kind. -/
  | starTooLarge (word : String)
  /-- The place at an index has a letter that means nothing. -/
  | unknownLetter (letter : Char) (index : Nat)
  /-- A letter wants a number that can be made an integer. -/
  | realWanted (letter : Char) (kind : String)
  /-- A letter wants an integer. -/
  | integerWanted (letter : Char) (kind : String)
  /-- A letter wants a number. -/
  | numberWanted (kind : String)
  /-- A letter wants a character, or the number of one. -/
  | characterWanted
  /-- No character has this number. -/
  | noCharacter
  /-- A number beyond all others was to be made an integer. -/
  | infinite
  /-- What is no number was to be made an integer. -/
  | undefined
  /-- A value is of a kind that cannot be worked with. -/
  | kind (e : KindError)
deriving DecidableEq, Repr

def TemplateError.message : TemplateError → String
  | .unfinished => "incomplete format"
  | .unfinishedName => "incomplete format key"
  | .noNames => "format requires a mapping"
  | .rowName => "list indices must be integers or slices, not str"
  | .unknownName name => Text.quote name
  | .leftOver => "not all arguments converted during string formatting"
  | .usedUp => "not enough arguments for format string"
  | .widthTooLarge => "width too big"
  | .limitTooLarge => "precision too big"
  | .limitTooLong => "precision too large"
  | .starKind => "* wants int"
  | .starTooLarge word => "Python int too large to convert to C " ++ word
  | .unknownLetter letter index =>
    let shown := if 0x1f ≤ letter.toNat && letter.toNat ≤ 0x7e then letter else '?'
    "unsupported format character '" ++ shown.toString ++ "' (0x" ++ String.ofList (Nat.toDigits 16 letter.toNat) ++
      ") at index " ++ toString index
  | .realWanted letter given => "%" ++ letter.toString ++ " format: a real number is required, not " ++ given
  | .integerWanted letter given => "%" ++ letter.toString ++ " format: an integer is required, not " ++ given
  | .numberWanted given => "must be real number, not " ++ given
  | .characterWanted => "%c requires int or char"
  | .noCharacter => "%c arg not in range(0x110000)"
  | .infinite => "cannot convert float infinity to integer"
  | .undefined => "cannot convert float NaN to integer"
  | .kind e => e.message

namespace Template

/-- Where inside a text the reading stands. -/
inductive Phase where
  | plain
  /-- Right behind a sign. -/
  | sign
  /-- Inside a name, some brackets deep; the characters read, the last first. -/
  | name (depth : Nat) (read : List Char)
  | flags
  | width
  | behindWidth
  /-- Right behind a point. -/
  | point
  | limit
  | behindLimit
  | behindSize
deriving DecidableEq, Repr

/-- A value being filled in: what is at hand for the next place, whether it is used, whether anything is written, and
the least width and the greatest length of the present place. -/
structure Filling where
  phase : Phase
  value : Datum
  used : Bool
  written : Bool
  width : Nat
  limit : Option Nat
deriving DecidableEq

/-- Whether a value need not find a place, and can be asked for names. -/
def holdsOthers : Datum → Bool
  | .list _ => true
  | .record _ => true
  | _ => false

/-- The largest number for a greatest length. -/
def maxLimit : Nat := 0x7fffffff

/-- The digit that a character is. -/
def digit? (c : Char) : Option Nat :=
  if '0' ≤ c && c ≤ '9' then some (c.toNat - 0x30) else none

/-- Whether an integer is written of a value. -/
def wholeNumber (letter : Char) (value : Datum) : Except TemplateError Unit :=
  match value.number? with
  | some (.whole _) => .ok ()
  | some (.real x) => if x.isNaN then .error .undefined else if x.isInf then .error .infinite else .ok ()
  | none => .error (.realWanted letter value.kind)

/-- Whether the digits of a value are written, which must be an integer. -/
def wholeDigits (letter : Char) (value : Datum) : Except TemplateError Unit :=
  match value.number? with
  | some (.whole _) => .ok ()
  | _ => .error (.integerWanted letter value.kind)

/-- Whether a fraction is written of a value. -/
def fraction (value : Datum) : Except TemplateError Unit :=
  match value.number? with
  | some n => (n.toReal.mapError .kind).map (fun _ => ())
  | none => .error (.numberWanted value.kind)

/-- Whether a character is written of a value. -/
def character (value : Datum) : Except TemplateError Unit :=
  match value, value.number? with
  | .text s, _ => if s.length = 1 then .ok () else .error .characterWanted
  | _, some (.whole n) => if 0 ≤ n ∧ n < 0x110000 then .ok () else .error .noCharacter
  | _, _ => .error .characterWanted

namespace Filling

/-- A value before anything is read. -/
def start (value : Datum) : Filling :=
  { phase := .plain, value, used := false, written := false, width := 0, limit := none }

/-- Takes the value at hand. -/
def take (s : Filling) : Except TemplateError Filling :=
  if s.used then .error .usedUp else .ok { s with used := true }

/-- Behind a piece of text that is written. -/
def write (s : Filling) : Filling :=
  { s with phase := .plain, written := true }

/-- Writes the value at hand as an integer. -/
def writeWhole (s : Filling) (check : Datum → Except TemplateError Unit) : Except TemplateError Filling := do
  check s.value
  if s.limit.any (fun limit => maxLimit - 3 < limit) then .error .limitTooLong else return s.write

/-- Writes a text of the value at hand, cut to the greatest length and filled up to the least. -/
def writeText (s : Filling) (text : String) : Filling :=
  if s.width = 0 ∧ (text = "" ∨ s.limit = some 0) then { s with phase := .plain } else s.write

/-- Writes the value at hand as a letter says. -/
def convert (s : Filling) (letter : Char) (index : Nat) : Except TemplateError Filling :=
  match letter with
  | 's' => .ok (s.writeText s.value.display)
  | 'r' | 'a' => .ok (s.writeText s.value.shown)
  | 'd' | 'i' | 'u' => s.writeWhole (wholeNumber letter)
  | 'o' | 'x' | 'X' => s.writeWhole (wholeDigits letter)
  | 'e' | 'E' | 'f' | 'F' | 'g' | 'G' => (fraction s.value).map (fun _ => s.write)
  | 'c' => (character s.value).map (fun _ => s.write)
  | _ => .error (.unknownLetter letter index)

/-- A place ends with its letter. -/
def readLetter (s : Filling) (letter : Char) (index : Nat) : Except TemplateError Filling := do
  let s ← (← s.take).convert letter index
  if Datum.maxLength < s.width then .error (.kind .noRoom) else return s

/-- Behind the greatest length comes a size, or the letter. -/
def readSize (s : Filling) (c : Char) (index : Nat) : Except TemplateError Filling :=
  if c = 'h' ∨ c = 'l' ∨ c = 'L' then .ok { s with phase := .behindSize } else s.readLetter c index

/-- Behind the least width comes a point, or what may follow the greatest length. -/
def readPoint (s : Filling) (c : Char) (index : Nat) : Except TemplateError Filling :=
  if c = '.' then .ok { s with phase := .point, limit := some 0 } else s.readSize c index

/-- A star takes the value at hand for the least width. -/
def readWidthStar (s : Filling) : Except TemplateError Filling := do
  let s ← s.take
  match s.value with
  | .int n =>
    if Datum.fits Datum.maxCount n then return { s with phase := .behindWidth, width := n.natAbs }
    else .error (.starTooLarge "ssize_t")
  | .bool b => return { s with phase := .behindWidth, width := if b then 1 else 0 }
  | _ => .error .starKind

/-- A star takes the value at hand for the greatest length. -/
def readLimitStar (s : Filling) : Except TemplateError Filling := do
  let s ← s.take
  match s.value with
  | .int n =>
    if Datum.fits maxLimit n then return { s with phase := .behindLimit, limit := some n.toNat }
    else .error (.starTooLarge "int")
  | .bool b => return { s with phase := .behindLimit, limit := some (if b then 1 else 0) }
  | _ => .error .starKind

/-- Flags come before the least width. -/
def readFlag (s : Filling) (c : Char) (index : Nat) : Except TemplateError Filling :=
  if c = '-' ∨ c = '+' ∨ c = ' ' ∨ c = '#' ∨ c = '0' then .ok { s with phase := .flags }
  else if c = '*' then s.readWidthStar
  else match digit? c with
    | some d => .ok { s with phase := .width, width := d }
    | none => s.readPoint c index

/-- One more digit of the least width, or what may follow it. -/
def readWidth (s : Filling) (c : Char) (index : Nat) : Except TemplateError Filling :=
  match digit? c with
  | some d =>
    if Datum.maxCount < s.width * 10 + d then .error .widthTooLarge else .ok { s with width := s.width * 10 + d }
  | none => s.readPoint c index

/-- One more digit of the greatest length, or what may follow it. -/
def readLimit (s : Filling) (c : Char) (index : Nat) : Except TemplateError Filling :=
  match digit? c with
  | some d =>
    let limit := s.limit.getD 0 * 10 + d
    if maxLimit < limit then .error .limitTooLarge else .ok { s with phase := .limit, limit := some limit }
  | none => s.readSize c index

/-- Takes the value of a name, which has to be in a record. -/
def takeNamed (s : Filling) (whole : Datum) (name : String) : Except TemplateError Filling :=
  match whole with
  | .record fields =>
    match fields.lookup name with
    | some value => .ok { s with phase := .flags, value, used := false }
    | none => .error (.unknownName name)
  | _ => .error .rowName

/-- One more character of the text. -/
def step (whole : Datum) (s : Filling) (c : Char) (index : Nat) : Except TemplateError Filling :=
  match s.phase with
  | .plain => .ok (if c = '%' then { s with phase := .sign, width := 0, limit := none } else s.write)
  | .sign =>
    if c = '%' then .ok s.write
    else if c = '(' then if holdsOthers whole then .ok { s with phase := .name 1 [] } else .error .noNames
    else s.readFlag c index
  | .name depth read =>
    if c = '(' then .ok { s with phase := .name (depth + 1) (c :: read) }
    else if c = ')' then
      if depth = 1 then s.takeNamed whole (String.ofList read.reverse)
      else .ok { s with phase := .name (depth - 1) (c :: read) }
    else .ok { s with phase := .name depth (c :: read) }
  | .flags => s.readFlag c index
  | .width => s.readWidth c index
  | .behindWidth => s.readPoint c index
  | .point => if c = '*' then s.readLimitStar else s.readLimit c index
  | .limit => s.readLimit c index
  | .behindLimit => s.readSize c index
  | .behindSize => s.readLetter c index

/-- The end of the text: whether anything is written. -/
def finish (whole : Datum) (s : Filling) : Except TemplateError Bool :=
  match s.phase with
  | .plain => if s.used || holdsOthers whole then .ok s.written else .error .leftOver
  | .name _ _ => .error .unfinishedName
  | _ => .error .unfinished

end Filling

/-- Whether a text with a value filled into it has any characters. -/
def isFilled (text : List Char) (value : Datum) : Except TemplateError Bool := do
  let s ← text.zipIdx.foldlM (fun s p => Filling.step value s p.1 p.2) (Filling.start value)
  s.finish value

end Template

namespace Datum

/-- Whether one value divided by another leaves something over. -/
def leavesRest (a b : Datum) : Except TemplateError Bool :=
  match a with
  | .text s => Template.isFilled s.toList b
  | a =>
    match a.number?, b.number? with
    | some m, some n => ((m.isMultipleOf n).map (!·)).mapError .kind
    | _, _ => .error (.kind (operandError "%" a b))

theorem leavesRest_int (m n : Int) : leavesRest (.int m) (.int n) = .ok (m.fmod n != 0) := rfl

end Datum
end Offside
