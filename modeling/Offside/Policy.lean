import Offside.Datum
import Offside.Text.Space
/-!
# Where white space goes

A line's own white space tokens stand before the markers that the line triggers, after them, or nowhere.  A policy is
named in two ways, in letters of either case.
-/
namespace Offside

/-- The place of a line's white space beside the markers it triggers. -/
inductive Policy where
  | before
  | after
  | skip
deriving DecidableEq, Repr

namespace Policy

def all : List Policy :=
  [.before, .after, .skip]

def name : Policy → String
  | .before => "before"
  | .after => "after"
  | .skip => "skip"

def label : Policy → String
  | .before => "BEFORE_INDENT"
  | .after => "AFTER_INDENT"
  | .skip => "SKIP"

/-- Whether a name in small letters is one of a policy's two names. -/
def answersTo (key : List Char) (p : Policy) : Bool :=
  key == p.name.toList || key == p.label.toList.map Char.toLower

/-- The policy that a text names, white space around it and the case of its letters aside. -/
def ofName? (s : String) : Option Policy :=
  all.find? (answersTo ((Text.strip s.toList).map Text.lowerChar))

theorem ofName?_name (p : Policy) : ofName? p.name = some p := by
  cases p <;> decide +kernel

theorem ofName?_label (p : Policy) : ofName? p.label = some p := by
  cases p <;> decide +kernel

end Policy
end Offside
