import Offside.Fault
/-!
# The ledger of open levels

A stack with one entry for every open indentation level: what will close it.  Closing takes entries off from the
deepest level on.
-/
namespace Offside

/-- A stack of entries, the deepest first. -/
structure Ledger (α : Type) where
  pending : List α
deriving DecidableEq, Repr

namespace Ledger

variable {α : Type}

def empty : Ledger α :=
  ⟨[]⟩

/-- How many levels are open. -/
def depth (l : Ledger α) : Nat :=
  l.pending.length

/-- The entries from the outermost level inward. -/
def toList (l : Ledger α) : List α :=
  l.pending.reverse

def push (l : Ledger α) (x : α) : Ledger α :=
  ⟨x :: l.pending⟩

/-- Closes every level: the entries, the deepest first, and a ledger without any. -/
def drain (l : Ledger α) : List α × Ledger α :=
  (l.pending, empty)

/-- Closes levels until at most `depth` are left: the entries taken, the deepest first, and what is left.  A depth
below zero is refused. -/
def popTo (l : Ledger α) (depth : Int) : Except Fault (List α × Ledger α) :=
  if depth < 0 then .error (.belowZero (.int depth))
  else
    let extra := l.depth - depth.toNat
    .ok (l.pending.take extra, ⟨l.pending.drop extra⟩)

/-- Closes levels until at most as many are left as a value says.  A fraction counts for the integer below it. -/
def popToValue (l : Ledger α) (depth : Datum) : Except Fault (List α × Ledger α) :=
  match depth.number? with
  | some (.whole n) => l.popTo n
  | some (.real x) =>
    if x < 0 then .error (.belowZero (.real x))
    else l.popTo ((Decimal.stepsOfReal x).fdiv (Decimal.stepsOfInt 1))
  | none => .error (.kind (.unordered depth.kind (Datum.int 0).kind))

theorem popToValue_int (l : Ledger α) (n : Int) : l.popToValue (.int n) = l.popTo n := rfl

@[simp]
theorem toList_empty : (empty : Ledger α).toList = [] := rfl

@[simp]
theorem depth_empty : (empty : Ledger α).depth = 0 := rfl

@[simp]
theorem length_toList (l : Ledger α) : l.toList.length = l.depth := by
  simp [toList, depth]

@[simp]
theorem toList_push (l : Ledger α) (x : α) : (l.push x).toList = l.toList ++ [x] := by
  simp [toList, push]

@[simp]
theorem depth_push (l : Ledger α) (x : α) : (l.push x).depth = l.depth + 1 := by
  simp [depth, push]

theorem popTo_neg (l : Ledger α) {depth : Int} (h : depth < 0) : l.popTo depth = .error (.belowZero (.int depth)) := by
  simp [popTo, h]

theorem popTo_zero (l : Ledger α) : l.popTo 0 = .ok l.drain := by
  simp [popTo, drain, depth, empty]

/-- Closing keeps the outer levels and gives the inner ones, the deepest first. -/
theorem toList_popTo (l : Ledger α) (n : Nat) :
    l.popTo n = .ok ((l.toList.drop n).reverse, ⟨(l.toList.take n).reverse⟩) := by
  have h : ¬ (n : Int) < 0 := by omega
  simp [popTo, h, toList, depth, List.drop_reverse, List.take_reverse]

end Ledger
end Offside
