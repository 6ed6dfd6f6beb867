import Offside.Decimal.Shortest
import Offside.Text.Quoted
/-!
# Option values

An option of the library is handed over as a plain value, and some callers hand over a value of the wrong kind: a
number where a name is wanted, a fraction where a count is.  `Datum` holds any such value, so that the library itself
decides what it accepts and what its refusal says.

A value has two texts.  `shown` tells values of different kinds apart, and puts quotes around a text; `display` is the
same but for a text, which it leaves as it is.  Equality of values is decided part by part (`Datum.decEq`).
-/
namespace Offside

/-- A plain value: nothing, a truth value, a number, a text, or values in a row or under names. -/
inductive Datum where
  | null
  | bool (b : Bool)
  | int (n : Int)
  | real (x : Float)
  | text (s : String)
  | list (xs : List Datum)
  | record (fields : List (String × Datum))
deriving Repr

namespace Datum

mutual

def decEq : (a b : Datum) → Decidable (a = b)
  | .null, .null => isTrue rfl
  | .bool a, .bool b => decidable_of_iff (a = b) (by simp)
  | .int a, .int b => decidable_of_iff (a = b) (by simp)
  | .real a, .real b => decidable_of_iff (a = b) (by simp)
  | .text a, .text b => decidable_of_iff (a = b) (by simp)
  | .list a, .list b =>
    match decEqItems a b with
    | isTrue h => isTrue (by rw [h])
    | isFalse h => isFalse (by simp [h])
  | .record a, .record b =>
    match decEqFields a b with
    | isTrue h => isTrue (by rw [h])
    | isFalse h => isFalse (by simp [h])
  | .null, .bool _ | .null, .int _ | .null, .real _ | .null, .text _ | .null, .list _ | .null, .record _
  | .bool _, .null | .bool _, .int _ | .bool _, .real _ | .bool _, .text _ | .bool _, .list _ | .bool _, .record _
  | .int _, .null | .int _, .bool _ | .int _, .real _ | .int _, .text _ | .int _, .list _ | .int _, .record _
  | .real _, .null | .real _, .bool _ | .real _, .int _ | .real _, .text _ | .real _, .list _ | .real _, .record _
  | .text _, .null | .text _, .bool _ | .text _, .int _ | .text _, .real _ | .text _, .list _ | .text _, .record _
  | .list _, .null | .list _, .bool _ | .list _, .int _ | .list _, .real _ | .list _, .text _ | .list _, .record _
  | .record _, .null | .record _, .bool _ | .record _, .int _ | .record _, .real _ | .record _, .text _
  | .record _, .list _ => isFalse nofun

def decEqItems : (a b : List Datum) → Decidable (a = b)
  | [], [] => isTrue rfl
  | [], _ :: _ | _ :: _, [] => isFalse nofun
  | x :: xs, y :: ys =>
    match decEq x y, decEqItems xs ys with
    | isTrue h, isTrue hs => isTrue (by rw [h, hs])
    | isFalse h, _ => isFalse (by simp [h])
    | _, isFalse hs => isFalse (by simp [hs])

def decEqFields : (a b : List (String × Datum)) → Decidable (a = b)
  | [], [] => isTrue rfl
  | [], _ :: _ | _ :: _, [] => isFalse nofun
  | (m, x) :: xs, (n, y) :: ys =>
    if hn : m = n then
      match decEq x y, decEqFields xs ys with
      | isTrue h, isTrue hs => isTrue (by rw [hn, h, hs])
      | isFalse h, _ => isFalse (by simp [h])
      | _, isFalse hs => isFalse (by simp [hs])
    else isFalse (by simp [hn])

end

instance : DecidableEq Datum := decEq

mutual

/-- The text that tells a value from every other. -/
def shown : Datum → String
  | .null => "None"
  | .bool true => "True"
  | .bool false => "False"
  | .int n => toString n
  | .real x => Decimal.shown x
  | .text s => Text.quote s
  | .list xs => "[" ++ String.intercalate ", " (shownItems xs) ++ "]"
  | .record fields => "\x7b" ++ String.intercalate ", " (shownFields fields) ++ "\x7d"

def shownItems : List Datum → List String
  | [] => []
  | x :: xs => x.shown :: shownItems xs

def shownFields : List (String × Datum) → List String
  | [] => []
  | (name, x) :: fields => (Text.quote name ++ ": " ++ x.shown) :: shownFields fields

end

/-- The text of a value inside a sentence.  An integer is shown whole, however many digits it has. -/
def display : Datum → String
  | .text s => s
  | x => x.shown

@[simp]
theorem display_int (n : Int) : (int n).display = toString n := rfl

/-- Whether a value stands for something: nothing, false, zero and whatever is empty do not. -/
def isSet : Datum → Bool
  | .null => false
  | .bool b => b
  | .int n => n != 0
  | .real x => x != 0
  | .text s => s != ""
  | .list xs => !xs.isEmpty
  | .record fields => !fields.isEmpty

def kind : Datum → String
  | .null => "NoneType"
  | .bool _ => "bool"
  | .int _ => "int"
  | .real _ => "float"
  | .text _ => "str"
  | .list _ => "list"
  | .record _ => "dict"

end Datum
end Offside
