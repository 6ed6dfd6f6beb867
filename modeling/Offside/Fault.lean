import Offside.Config
import Offside.Datum.Template
/-!
# What ends or interrupts a stream

A stream is refused by its configuration, stopped by an indentation that fits no level, or interrupted: by its source,
which may be a scanner that meets a character it cannot read or fail for any reason of its own, or by a column or an
indentation that cannot be counted with.
-/
namespace Offside

/-- An indentation that is no multiple of the indent unit, and the place of the token behind it. -/
structure IndentError where
  length : Datum
  unit : Datum
  line : Datum
  column : Datum
deriving DecidableEq, Repr

/-- The sentence that reports an indentation that fits no level. -/
def IndentError.message (e : IndentError) : String :=
  "Invalid indent length " ++ e.length.display ++ " at " ++ e.line.display ++ ":" ++ e.column.display ++
    " (indent unit is " ++ e.unit.display ++ ")"

/-- A carriage return that no line feed follows: how many characters stand before it, and its line and column. -/
structure StrayReturn where
  offset : Nat
  line : Nat
  column : Nat
deriving DecidableEq, Repr

/-- What a request to a stream can fail with. -/
inductive Fault where
  | config (e : ConfigError)
  | indent (e : IndentError)
  /-- Levels were to be closed down to a depth below zero. -/
  | belowZero (depth : Datum)
  /-- Something of a token was needed where there is no token. -/
  | noToken (field : String)
  | stray (e : StrayReturn)
  /-- The source failed for a reason of its own. -/
  | source (message : String)
  /-- A value is of a kind that cannot be worked with. -/
  | kind (e : KindError)
  /-- An indentation that is a text cannot be divided by the unit. -/
  | template (e : TemplateError)
deriving DecidableEq, Repr

/-- The sentence that reports a fault. -/
def Fault.message : Fault → String
  | .config e => e.message
  | .indent e => e.message
  | .belowZero depth => "depth must be >= 0, got " ++ depth.display
  | .noToken field => "'NoneType' object has no attribute '" ++ field ++ "'"
  | .stray e => "stray carriage return at line " ++ toString e.line ++ ", column " ++ toString e.column
  | .source message => message
  | .kind e => e.message
  | .template e => e.message

/-- The marker of a level, triggered by a token that has to be there. -/
def Token.markerOf (type : TokenType) (level : Datum) (trigger : Option Token) (unit : Datum) : Except Fault Token :=
  match trigger with
  | none => .error (.noToken "column")
  | some t => (Token.marker type level t unit).mapError .kind

theorem Token.markerOf_some {type : TokenType} {level unit : Datum} {trigger t : Token}
    (h : Token.marker type level trigger unit = .ok t) : Token.markerOf type level (some trigger) unit = .ok t := by
  rw [markerOf, h]
  rfl

end Offside
