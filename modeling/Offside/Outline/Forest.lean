/-!
# Forests

A forest is a row of nodes, and below each node stands another forest.  Its walk visits every node before those below
it, and these before its right neighbours, and says how deep each node stands.
-/
namespace Offside

/-- A row of nodes with labels, each with a forest below it. -/
inductive Forest (α : Type) where
  | nil
  | node (label : α) (below rest : Forest α)
deriving DecidableEq, Repr

namespace Forest

variable {α β : Type}

def map (f : α → β) : Forest α → Forest β
  | .nil => .nil
  | .node a below rest => .node (f a) (below.map f) (rest.map f)

/-- The nodes of a forest with the depth of each, where the forest itself stands at a given depth. -/
def walk (depth : Int) : Forest α → List (Int × α)
  | .nil => []
  | .node a below rest => (depth, a) :: below.walk (depth + 1) ++ rest.walk depth

/-- The same nodes with depths counted from any value, where `below` gives the depth one level down if there is one. -/
def walkFrom {δ ε : Type} (below : δ → Except ε δ) (depth : δ) : Forest α → Except ε (List (δ × α))
  | .nil => .ok []
  | .node a .nil rest => do
    let beside ← rest.walkFrom below depth
    return (depth, a) :: beside
  | .node a inner rest => do
    let deeper ← inner.walkFrom below (← below depth)
    let beside ← rest.walkFrom below depth
    return (depth, a) :: deeper ++ beside

def labels : Forest α → List α
  | .nil => []
  | .node a below rest => a :: below.labels ++ rest.labels

/-- The depth of the deepest node, zero where there is none. -/
def depth (f : Forest α) : Int :=
  ((f.walk 0).map Prod.fst).foldl max 0

/-- The forest with some roots, each with what is below it. -/
def ofRoots : List (α × Forest α) → Forest α
  | [] => .nil
  | (a, below) :: rest => .node a below (ofRoots rest)

def roots : Forest α → List (α × Forest α)
  | .nil => []
  | .node a below rest => (a, below) :: rest.roots

@[simp]
theorem roots_ofRoots : ∀ l : List (α × Forest α), (ofRoots l).roots = l
  | [] => rfl
  | (a, below) :: rest => by simp [ofRoots, roots, roots_ofRoots rest]

@[simp]
theorem ofRoots_roots : ∀ f : Forest α, ofRoots f.roots = f
  | .nil => rfl
  | .node a below rest => by simp [ofRoots, roots, ofRoots_roots rest]

/-- The walk visits every label once, in order. -/
theorem map_snd_walk : ∀ (f : Forest α) (depth : Int), (f.walk depth).map Prod.snd = f.labels
  | .nil, _ => rfl
  | .node a below rest, depth => by
    simp [walk, labels, map_snd_walk below (depth + 1), map_snd_walk rest depth]

end Forest
end Offside
