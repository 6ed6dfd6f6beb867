import Offside.Datum
import Offside.Text.Integer
/-!
# Arithmetic on option values

What comes of counting with a value that nobody checked.  Numbers are added, multiplied and divided, a truth value
counting as one or zero; two integers make an integer, and a fraction on either side makes a fraction.  A text or a row
can be repeated and joined to one of its kind, as long as there is room for what comes of it.  Everything else is
refused by the kinds of the values, and the refusal names them (`KindError`).
-/
namespace Offside

/-- Why values cannot be worked with as they were to be. -/
inductive KindError where
  /-- An operation is not defined on values of two kinds. -/
  | operands (symbol left right : String)
  /-- A text or a row was to be joined to a value of another kind. -/
  | joined (left right : String)
  /-- A text or a row was to be repeated by a value that counts nothing. -/
  | repeated (kind : String)
  /-- A text or a row was to be repeated more often than anything is counted. -/
  | beyondCount
  /-- A text was to be repeated until it is longer than anything is counted. -/
  | textTooLong
  /-- There is no room for a value. -/
  | noRoom
  /-- Two values were to be put in order that have none. -/
  | unordered (left right : String)
  /-- A value that lists nothing was given where values are to be listed. -/
  | notListing (kind : String)
  /-- A value that holds others was given where a single one is wanted. -/
  | notSingle (kind : String)
  /-- A value was given for an integer that is none by its kind. -/
  | notInteger (kind : String)
  /-- A value that holds nothing was to be measured. -/
  | noSize (kind : String)
  /-- A value that holds nothing was to be searched. -/
  | notSearched (kind : String)
  /-- A value that holds others, but no characters, was given for a text. -/
  | noText
  /-- A value was asked for something that its kind does not have. -/
  | noPart (kind name : String)
  /-- An integer is too large to be worked with as a fraction. -/
  | tooLarge
  /-- An integer has more digits than are written. -/
  | tooManyDigits
deriving DecidableEq, Repr

def KindError.message : KindError → String
  | .operands symbol left right =>
    "unsupported operand type(s) for " ++ symbol ++ ": '" ++ left ++ "' and '" ++ right ++ "'"
  | .joined left right => "can only concatenate " ++ left ++ " (not \"" ++ right ++ "\") to " ++ left
  | .repeated kind => "can't multiply sequence by non-int of type '" ++ kind ++ "'"
  | .beyondCount => "cannot fit 'int' into an index-sized integer"
  | .textTooLong => "repeated string is too long"
  | .noRoom => ""
  | .unordered left right => "'<' not supported between instances of '" ++ left ++ "' and '" ++ right ++ "'"
  | .notListing kind => "'" ++ kind ++ "' object is not iterable"
  | .notSingle kind => "unhashable type: '" ++ kind ++ "'"
  | .notInteger kind => "'" ++ kind ++ "' object cannot be interpreted as an integer"
  | .noSize kind => "object of type '" ++ kind ++ "' has no len()"
  | .notSearched kind => "argument of type '" ++ kind ++ "' is not iterable"
  | .noText => "text must be str or bytes"
  | .noPart kind name => "'" ++ kind ++ "' object has no attribute '" ++ name ++ "'"
  | .tooLarge => "int too large to convert to float"
  | .tooManyDigits =>
    "Exceeds the limit (" ++ toString Text.maxDigits ++ " digits) for integer string conversion; " ++
      "use sys.set_int_max_str_digits() to increase the limit"

/-! ## Numbers -/

/-- A number: an integer or a fraction. -/
inductive Number where
  | whole (n : Int)
  | real (x : Float)
deriving DecidableEq, Repr

namespace Number

def toDatum : Number → Datum
  | .whole n => .int n
  | .real x => .real x

/-- The number as a fraction, if there is one near it. -/
def toReal : Number → Except KindError Float
  | .whole n => if (Float.ofInt n).isFinite then .ok (Float.ofInt n) else .error .tooLarge
  | .real x => .ok x

/-- An operation on two numbers, given as one on integers and one on fractions. -/
def combine (onWhole : Int → Int → Int) (onReal : Float → Float → Float) (a b : Number) :
    Except KindError Number :=
  match a, b with
  | .whole m, .whole n => .ok (.whole (onWhole m n))
  | a, b => do
    let x ← a.toReal
    let y ← b.toReal
    return .real (onReal x y)

def isZero : Number → Bool
  | .whole n => n == 0
  | .real x => x == 0

/-- Whether a number is a whole number of times another one that is not zero. -/
def isMultipleOf (a b : Number) : Except KindError Bool :=
  match a, b with
  | .whole m, .whole n => .ok (m.fmod n == 0)
  | a, b => do
    let x ← a.toReal
    let y ← b.toReal
    return x.isFinite && y.isFinite && (Decimal.stepsOfReal x).fmod (Decimal.stepsOfReal y) == 0

/-- How many times a number goes into one that is a multiple of it. -/
def quotient (a b : Number) : Except KindError Number :=
  a.combine Int.fdiv
    (fun x y =>
      if x.isFinite && y.isFinite then Float.ofInt ((Decimal.stepsOfReal x).fdiv (Decimal.stepsOfReal y)) else x / y)
    b

end Number

/-! ## Values -/

namespace Datum

/-- The number that a value is: a truth value is one or zero. -/
def number? : Datum → Option Number
  | .bool b => some (.whole (if b then 1 else 0))
  | .int n => some (.whole n)
  | .real x => some (.real x)
  | _ => none

def isZero (d : Datum) : Bool :=
  d.number?.any Number.isZero

/-- The values that a value lists: the characters of a text, the names of a record. -/
def listed : Datum → Except KindError (List Datum)
  | .text s => .ok (s.toList.map (fun c => .text c.toString))
  | .list xs => .ok xs
  | .record fields => .ok (fields.map (fun field => .text field.1))
  | d => .error (.notListing d.kind)

/-- The error of an operation that is not defined on two values. -/
def operandError (symbol : String) (a b : Datum) : KindError :=
  .operands symbol a.kind b.kind

/-- The largest number that lengths and counts are held in. -/
def maxCount : Nat := 0x7fffffffffffffff

/-- Whether an integer is not too large, on either side of zero, for numbers of which one is the largest. -/
def fits (largest : Nat) (n : Int) : Bool :=
  -(largest + 1 : Int) ≤ n && n ≤ largest

/-- The greatest length of a text for which there is room.  A value in a row takes as much of it as eight characters. -/
def maxLength : Nat := 0x1000000000

def repeatedText (s : String) (n : Nat) : Except KindError Datum :=
  if s = "" ∨ n = 0 then .ok (.text "")
  else if maxCount < s.length * n then .error .textTooLong
  else if maxLength < s.length * n then .error .noRoom
  else .ok (.text (String.join (List.replicate n s)))

def repeatedRow (xs : List Datum) (n : Nat) : Except KindError Datum :=
  if xs.isEmpty ∨ n = 0 then .ok (.list [])
  else if maxLength < 8 * (xs.length * n) then .error .noRoom
  else .ok (.list (List.replicate n xs).flatten)

/-- A text or a row as many times over as a count says; nothing for a value that is neither.  A count below zero leaves
nothing of them. -/
def repeatedBy (value count : Datum) : Option (Except KindError Datum) :=
  let times : Except KindError Nat :=
    match count.number? with
    | some (.whole n) => if fits maxCount n then .ok n.toNat else .error .beyondCount
    | _ => .error (.repeated count.kind)
  match value with
  | .text s => some (times >>= repeatedText s)
  | .list xs => some (times >>= repeatedRow xs)
  | _ => none

/-- The product of two numbers; a text or a row is repeated, on whichever side the count is. -/
def times (a b : Datum) : Except KindError Datum :=
  match a.number?, b.number? with
  | some m, some n => (m.combine (· * ·) (· * ·) n).map Number.toDatum
  | _, _ =>
    match a.repeatedBy b, b.repeatedBy a with
    | some product, _ => product
    | none, some product => product
    | none, none => .error (operandError "*" a b)

/-- The sum of two numbers, or two texts or rows joined; `symbol` is the name that the operation goes by. -/
def plus (symbol : String) (a b : Datum) : Except KindError Datum :=
  match a.number?, b.number? with
  | some m, some n => (m.combine (· + ·) (· + ·) n).map Number.toDatum
  | _, _ =>
    match a, b with
    | .text s, .text t => .ok (.text (s ++ t))
    | .list xs, .list ys => .ok (.list (xs ++ ys))
    | .text _, b => .error (.joined a.kind b.kind)
    | .list _, b => .error (.joined a.kind b.kind)
    | a, b => .error (operandError symbol a b)

/-- A value increased by another: a row by whatever the other lists, and any other value as a sum. -/
def increased (a b : Datum) : Except KindError Datum :=
  match a with
  | .list xs => b.listed.map (fun ys => .list (xs ++ ys))
  | a => a.plus "+=" b

/-- How many times a value goes into one that is a multiple of it. -/
def quotient (a b : Datum) : Except KindError Number :=
  match a.number?, b.number? with
  | some m, some n => m.quotient n
  | _, _ => .error (operandError "//" a b)

/-- The text of a value inside a sentence, unless it is an integer with too many digits. -/
def written (d : Datum) : Except KindError String :=
  match d with
  | .int n => if (toString n.natAbs).length ≤ Text.maxDigits then .ok d.display else .error .tooManyDigits
  | d => .ok d.display

@[simp]
theorem isZero_int (n : Int) : (int n).isZero = (n == 0) := rfl

theorem times_int (m n : Int) : times (.int m) (.int n) = .ok (.int (m * n)) := rfl

theorem quotient_int (m n : Int) : quotient (.int m) (.int n) = .ok (.whole (m.fdiv n)) := rfl

theorem plus_int (symbol : String) (m n : Int) : plus symbol (.int m) (.int n) = .ok (.int (m + n)) := rfl

theorem increased_int (m n : Int) : increased (.int m) (.int n) = .ok (.int (m + n)) := rfl

end Datum
end Offside
