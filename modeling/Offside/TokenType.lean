import Offside.Datum
/-!
# Token types

What tells the kinds of tokens apart.  A type is a name as a rule, but nothing, a truth value or a number will do as
well.  Two types are the same where their keys are (`TokenType.key`): names by their text and numbers by their value,
however they are written, where a truth value counts as one or zero.

A token may also have a type that holds other values.  Such a type cannot be a member of a set of types, and cannot be
looked up in one (`TokenType.isSingle`).
-/
namespace Offside

inductive TokenType where
  | name (s : String)
  | nothing
  | truth (b : Bool)
  | integer (n : Int)
  | real (x : Float)
  | row (xs : List Datum)
  | record (fields : List (String × Datum))
deriving DecidableEq, Repr

namespace TokenType

/-- What token types that are the same have in common. -/
inductive Key where
  | name (s : String)
  | nothing
  | number (steps : Int)
  /-- A number beyond all others, below them or above. -/
  | infinite (below : Bool)
  | undefined
  | compound (d : Datum)
deriving DecidableEq, Repr

/-- The key of a fraction. -/
def Key.ofReal (x : Float) : Key :=
  if x.isFinite then .number (Decimal.stepsOfReal x) else if x.isInf then .infinite (x < 0) else .undefined

/-- The key of a type.  Numbers are counted in steps of `2 ^ -1074`, of which every finite double is a whole number. -/
def key : TokenType → Key
  | .name s => .name s
  | .nothing => .nothing
  | .truth b => .number (if b then Decimal.stepsOfInt 1 else 0)
  | .integer n => .number (Decimal.stepsOfInt n)
  | .real x => .ofReal x
  | .row xs => .compound (.list xs)
  | .record fields => .compound (.record fields)

def toDatum : TokenType → Datum
  | .name s => .text s
  | .nothing => .null
  | .truth b => .bool b
  | .integer n => .int n
  | .real x => .real x
  | .row xs => .list xs
  | .record fields => .record fields

def ofDatum : Datum → TokenType
  | .text s => .name s
  | .null => .nothing
  | .bool b => .truth b
  | .int n => .integer n
  | .real x => .real x
  | .list xs => .row xs
  | .record fields => .record fields

/-- Whether a type is a single value, and so can be looked up in a set of types. -/
def isSingle : TokenType → Bool
  | .row _ => false
  | .record _ => false
  | _ => true

/-- The text of a type inside a sentence. -/
def display (t : TokenType) : String :=
  t.toDatum.display

/-- The text that tells a type from every other. -/
def shown (t : TokenType) : String :=
  t.toDatum.shown

def isSet (t : TokenType) : Bool :=
  t.toDatum.isSet

/-- Some types, each once: the first of those that are the same. -/
def distinct (types : List TokenType) : List TokenType :=
  types.eraseDupsBy (fun a b => a.key == b.key)

def Key.isNumber : Key → Bool
  | .number _ | .infinite _ | .undefined => true
  | _ => false

/-- Whether two types have an order: two names, or two numbers. -/
def comparable (a b : TokenType) : Bool :=
  match a.key, b.key with
  | .name _, .name _ => true
  | a, b => a.isNumber && b.isNumber

/-- The order of names, and that of numbers. -/
def le (a b : TokenType) : Bool :=
  match a.key, b.key with
  | .name s, .name t => decide (s ≤ t)
  | .number m, .number n => decide (m ≤ n)
  | .infinite below, .infinite below' => below || !below'
  | .infinite below, .number _ => below
  | .number _, .infinite below => !below
  | _, _ => true

/-- The first two neighbours in a list that have no order. -/
def unordered? : List TokenType → Option (TokenType × TokenType)
  | a :: b :: rest => if a.comparable b then unordered? (b :: rest) else some (a, b)
  | _ => none

theorem Key.ofReal_ne_name (x : Float) (s : String) : Key.ofReal x ≠ .name s := by
  unfold Key.ofReal
  repeat' split
  all_goals simp

theorem key_eq_name (t : TokenType) (s : String) : t.key = .name s ↔ t = .name s := by
  cases t <;> simp [key, Key.ofReal_ne_name]

theorem ofDatum_toDatum (t : TokenType) : ofDatum t.toDatum = t := by
  cases t <;> rfl

theorem toDatum_ofDatum (d : Datum) : (ofDatum d).toDatum = d := by
  cases d <;> rfl

end TokenType
end Offside
