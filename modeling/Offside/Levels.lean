import Offside.Ledger
/-!
# Indentation levels

The width of one level, and the markers that will close the levels now open.  A measured indentation moves the depth to
its quotient by the unit, which the first indentation other than zero fixes.  Levels that it opens are written down at
once, each with the marker that will close it; levels that it closes give the markers written down for them.

A unit that a stream is set up with is an integer from zero on, and a line's white space is measured in whole
characters.  An indentation that comes from a column is of whatever kind the column is, and so is the unit that it
fixes.  A truth value counts as one or zero.  A fraction can close levels, but opens none, and other values cannot be
divided.  On integers all this is `reconcile_int`.
-/
namespace Offside

/-- The indent unit, zero as long as nothing fixed it, and the closing markers of the open levels. -/
structure Levels where
  unit : Datum
  ledger : Ledger Token
deriving DecidableEq, Repr

namespace Levels

/-- No level open yet. -/
def start (unit : Datum) : Levels :=
  ⟨unit, .empty⟩

/-- How many levels are open. -/
def depth (s : Levels) : Nat :=
  s.ledger.depth

/-- Closes every level. -/
def closeAll (s : Levels) : List Token × Levels :=
  (s.ledger.drain.1, { s with ledger := s.ledger.drain.2 })

/-- The levels from the present depth up to a deeper one. -/
def above (s : Levels) (depth : Int) : List Int :=
  (List.range (depth - s.depth).toNat).map (fun (i : Nat) => (s.depth : Int) + i)

/-- One more level open, to be closed by the marker of its kind that stands where its opening marker does. -/
def opened (s : Levels) (kinds : Kinds) (opening : Token) : Levels :=
  { s with ledger := s.ledger.push { opening with type := kinds.dedent } }

/-- Opens levels one by one, and gives their opening markers.  Where a marker cannot be made, the levels opened before
stay open. -/
def openEach (s : Levels) (kinds : Kinds) (trigger : Option Token) : List Int → Except Fault (List Token) × Levels
  | [] => (.ok [], s)
  | level :: deeper =>
    match Token.markerOf kinds.indent (.int level) trigger s.unit with
    | .error f => (.error f, s)
    | .ok opening =>
      let outcome := (s.opened kinds opening).openEach kinds trigger deeper
      (outcome.1.map (opening :: ·), outcome.2)

/-- Moves to a depth, closing levels or opening them. -/
def moveTo (s : Levels) (kinds : Kinds) (depth : Int) (trigger : Option Token) :
    Except Fault (List Token) × Levels :=
  if depth < s.depth then
    match s.ledger.popTo depth with
    | .error f => (.error f, s)
    | .ok (closing, ledger) => (.ok closing, { s with ledger })
  else s.openEach kinds trigger (s.above depth)

/-- Moves to a depth that may be a fraction, which can only be below the present one. -/
def moveToNumber (s : Levels) (kinds : Kinds) (depth : Number) (trigger : Option Token) :
    Except Fault (List Token) × Levels :=
  match depth with
  | .whole depth => s.moveTo kinds depth trigger
  | .real depth =>
    if depth < Float.ofInt s.depth then
      match s.ledger.popToValue (.real depth) with
      | .error f => (.error f, s)
      | .ok (closing, ledger) => (.ok closing, { s with ledger })
    else (.error (.kind (.notInteger (Datum.real depth).kind)), s)

/-- Moves to the depth that is the quotient of an indentation by the unit. -/
def moveByQuotient (s : Levels) (kinds : Kinds) (length : Datum) (trigger : Option Token) :
    Except Fault (List Token) × Levels :=
  match length.quotient s.unit with
  | .error e => (.error (.kind e), s)
  | .ok depth => s.moveToNumber kinds depth trigger

/-- Takes the first indentation for the unit, and moves to the depth one. -/
def fixUnit (s : Levels) (kinds : Kinds) (length : Datum) (trigger : Option Token) :
    Except Fault (List Token) × Levels :=
  let s := { s with unit := length }
  match trigger with
  | none => (.error (.noToken "line"), s)
  | some _ => s.moveByQuotient kinds length trigger

/-- Turns the measured indentation of a line into markers.  No indentation closes every level.  The first other one
fixes the unit, and from then on one that is no multiple of the unit is refused.  The token behind the indentation
says where the markers stand, and the refusal names its place. -/
def reconcile (s : Levels) (kinds : Kinds) (length : Datum) (trigger : Option Token) :
    Except Fault (List Token) × Levels :=
  if length.isZero then (.ok s.closeAll.1, s.closeAll.2)
  else if s.unit.isZero then s.fixUnit kinds length trigger
  else match length.leavesRest s.unit, trigger with
    | .error e, _ => (.error (.template e), s)
    | .ok false, _ => s.moveByQuotient kinds length trigger
    | .ok true, none => (.error (.noToken "line"), s)
    | .ok true, some t => (.error (.indent ⟨length, s.unit, t.start.line, t.start.column⟩), s)

/-- On integers, the depth is the quotient of the indentation by the unit. -/
theorem reconcile_int {s : Levels} {unit : Int} (hs : s.unit = .int unit) (kinds : Kinds) (length : Int) (t : Token) :
    s.reconcile kinds (.int length) (some t) =
      if length = 0 then (.ok s.closeAll.1, s.closeAll.2)
      else if unit = 0 then { s with unit := .int length }.moveTo kinds (length.fdiv length) (some t)
      else if length.fmod unit = 0 then s.moveTo kinds (length.fdiv unit) (some t)
      else (.error (.indent ⟨.int length, s.unit, t.start.line, t.start.column⟩), s) := by
  unfold reconcile fixUnit moveByQuotient
  simp only [hs, Datum.isZero_int, beq_iff_eq, Datum.quotient_int, moveToNumber, Datum.leavesRest_int]
  by_cases hd : length.fmod unit = 0
  · simp [hd]
  · have hb : (length.fmod unit != 0) = true := by simpa using hd
    simp [hd, hb]

/-- Opening levels at a known column gives their opening markers and writes the closing ones down. -/
theorem openEach_int {trigger : Token} {column : Int} (ht : trigger.start.column = .int column) (kinds : Kinds)
    (levels : List Int) : ∀ {s : Levels} {unit : Int}, s.unit = .int unit →
    let mark (type : TokenType) (level : Int) : Token :=
      Token.markerAt type (.int level) { trigger.start with column := .int (column + level * unit) }
    s.openEach kinds (some trigger) levels =
      (.ok (levels.map (mark kinds.indent)),
        { s with ledger := (levels.map (mark kinds.dedent)).foldl Ledger.push s.ledger }) := by
  induction levels with
  | nil => intro s unit _; rfl
  | cons level deeper ih =>
    intro s unit hs
    have hm := Token.markerOf_some (hs ▸ Token.marker_of_int ht kinds.indent level unit)
    simp only [openEach, hm]
    rw [ih (s := s.opened kinds _) hs]
    rfl

/-- The same at an unknown column. -/
theorem openEach_unknown {trigger : Token} (ht : trigger.start.column = .null) (kinds : Kinds) (levels : List Int) :
    ∀ s : Levels,
    let mark (type : TokenType) (level : Int) : Token := Token.markerAt type (.int level) trigger.start
    s.openEach kinds (some trigger) levels =
      (.ok (levels.map (mark kinds.indent)),
        { s with ledger := (levels.map (mark kinds.dedent)).foldl Ledger.push s.ledger }) := by
  induction levels with
  | nil => intro s; rfl
  | cons level deeper ih =>
    intro s
    have hm := Token.markerOf_some (Token.marker_of_unknown ht kinds.indent (.int level) s.unit)
    simp only [openEach, hm]
    rw [ih]
    rfl

end Levels
end Offside
