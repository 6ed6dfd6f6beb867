import Offside.Datum.Arithmetic
import Offside.Text.Blank
import Offside.TokenType
/-!
# Tokens

A token is a piece of text with a type, and the places where it starts and stops.  A source need not keep places, and
nobody checks those that it keeps: each of the three numbers of a place is a value of any kind, an integer as a rule,
and nothing where it is unknown.  A token is passed on with whatever values it has.  Only a column is ever counted with,
and one that is no number is refused then.

A marker is a token of no text that opens or closes an indentation level: it has that level as a number, and it stands
where the token that triggered it starts, its column moved right by the indentation of its level.  A token that comes
with a level from its source is a marker too, whatever the level is.
-/
namespace Offside

/-- A place in a text: how many characters stand before it, its line and its column, the latter two counted from one. -/
structure Place where
  offset : Datum
  line : Datum
  column : Datum
deriving DecidableEq, Repr

/-- A piece of text with a type, from one place to another; a marker has a level too. -/
structure Token where
  type : TokenType
  value : String
  start : Place
  stop : Place
  level : Option Datum
deriving DecidableEq, Repr

namespace Token

/-- The marker of a level at a place. -/
def markerAt (type : TokenType) (level : Datum) (place : Place) : Token :=
  { type, value := "", start := place, stop := place, level := some level }

/-- The marker of a level, triggered by a token, where one level is `unit` columns wide.  An unknown column stays
unknown, and then neither the level nor the unit matters. -/
def marker (type : TokenType) (level : Datum) (trigger : Token) (unit : Datum) : Except KindError Token :=
  match trigger.start.column with
  | .null => .ok (markerAt type level trigger.start)
  | column => do
    let column ← column.increased (← level.times unit)
    return markerAt type level { trigger.start with column }

def isMarker (t : Token) : Bool :=
  t.level.isSome

def width (t : Token) : Nat :=
  t.value.length

def totalWidth : List Token → Nat
  | [] => 0
  | t :: ts => t.width + totalWidth ts

/-- The indentation that a token's column implies: the columns to its left, none where the column is unknown.  Left of
a fraction below one there is the integer zero. -/
def columnIndent (t : Token) : Except KindError Datum :=
  match t.start.column, t.start.column.number? with
  | .null, _ => .ok (.int 0)
  | _, some (.whole n) => .ok (.int (max (n - 1) 0))
  | _, some (.real x) => .ok (if x - 1 < 0 then .int 0 else .real (x - 1))
  | column, none => .error (Datum.operandError "-" column (.int 1))

/-- The indentation that a line break carries behind its last line feed. -/
def carriedIndent (t : Token) : Nat :=
  (Text.trailingIndent t.value.toList).length

/-- One line that names a marker by its type and level. -/
def markerLabel (type : TokenType) (level : Datum) : String :=
  "SyntheticToken(" ++ type.shown ++ ", depth_offset=" ++ level.display ++ ")"

@[simp]
theorem isMarker_markerAt (type : TokenType) (level : Datum) (place : Place) :
    (markerAt type level place).isMarker = true := rfl

/-- The marker that closes a level differs from the one that opens it by its type alone. -/
theorem markerAt_with_type (opening closing : TokenType) (level : Datum) (place : Place) :
    { markerAt opening level place with type := closing } = markerAt closing level place := rfl

theorem marker_of_unknown {trigger : Token} (h : trigger.start.column = .null) (type : TokenType)
    (level unit : Datum) : marker type level trigger unit = .ok (markerAt type level trigger.start) := by
  simp [marker, h]

theorem marker_of_int {trigger : Token} {column : Int} (h : trigger.start.column = .int column) (type : TokenType)
    (level unit : Int) :
    marker type (.int level) trigger (.int unit) =
      .ok (markerAt type (.int level) { trigger.start with column := .int (column + level * unit) }) := by
  simp [marker, h, Datum.times_int, Datum.increased_int, bind, Except.bind, pure, Except.pure]

theorem columnIndent_of_unknown {t : Token} (h : t.start.column = .null) : t.columnIndent = .ok (.int 0) := by
  simp [columnIndent, h]

theorem columnIndent_of_int {t : Token} {column : Int} (h : t.start.column = .int column) :
    t.columnIndent = .ok (.int (max (column - 1) 0)) := by
  simp [columnIndent, h, Datum.number?]

end Token
end Offside
