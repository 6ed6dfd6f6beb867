import Offside.Datum.Arithmetic
import Offside.Text.Blank
/-!
# Reading a value as a text

What comes of a value that is read as a text and need not be one.  A row and a record can be measured and searched like
a text, and nothing else; what only a text can do is refused for every other value.
-/
namespace Offside
namespace Datum

/-- How much a value holds: characters, values or names. -/
def size : Datum → Except KindError Nat
  | .text s => .ok s.length
  | .list xs => .ok xs.length
  | .record fields => .ok fields.length
  | d => .error (.noSize d.kind)

/-- The text that a value is.  Another value is measured before it is refused. -/
def toText : Datum → Except KindError String
  | .text s => .ok s
  | d => do
    let _ ← d.size
    .error .noText

def holdsBreak : Datum → Except KindError Bool
  | .text s => .ok (s.toList.contains '\n')
  | .list xs => .ok (xs.contains (.text "\n"))
  | .record fields => .ok (fields.any (fun field => field.1 == "\n"))
  | d => .error (.notSearched d.kind)

def breaks : Datum → Except KindError Nat
  | .text s => .ok (s.toList.count '\n')
  | .list xs => .ok (xs.count (.text "\n"))
  | d => .error (.noPart d.kind "count")

/-- How many characters a text has from its last line feed on, which counts too; nothing where there is none. -/
def sinceBreak (d : Datum) : Except KindError (Option Nat) := do
  if ← d.holdsBreak then
    match d with
    | .text s => return some ((Text.lastLine s.toList).length + 1)
    | d => .error (.noPart d.kind "rfind")
  else return none

theorem sinceBreak_text (s : String) :
    (text s).sinceBreak = .ok (if s.toList.contains '\n' then some ((Text.lastLine s.toList).length + 1) else none) := by
  have h : (text s).holdsBreak = .ok (s.toList.contains '\n') := rfl
  rw [sinceBreak, h]
  cases s.toList.contains '\n' <;> rfl

def isBlank : Datum → Except KindError Bool
  | .text s => .ok (Text.isBlank s.toList)
  | d => if d.isSet then .error (.noPart d.kind "strip") else .ok false

def trailingIndent : Datum → Except KindError String
  | .text s => .ok (String.ofList (Text.trailingIndent s.toList))
  | d => do if ← d.holdsBreak then .error (.noPart d.kind "rsplit") else return ""

end Datum
end Offside
