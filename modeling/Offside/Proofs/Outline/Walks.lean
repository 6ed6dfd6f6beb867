import Mathlib.Data.List.Chain
import Offside.Outline.Document
import Offside.Proofs.Outline.Shallower
/-!
# What a walk says of its forest

A walk lists the nodes of a forest with their depths, each right in front of what stands below it.  The depths begin at
zero and never rise by more than one, and nothing else is asked of them: labels with such depths are the walk of a
forest (`levels_ofLevels`), and of one only (`ofLevels_levels`).  So the walk of an outline is the outline written down
another way (`walk_determines`).

The depth of a forest can be read off its walk or off the forest, whose longest line of descent has one node more
(`exists_lineage`, `length_lineage_le`).
-/
namespace Offside
namespace Forest

variable {α : Type}

/-! ## Nodes in the order of the walk -/

/-- The nodes of a forest in the order of the walk, each with the forest below it. -/
def subtrees : Forest α → List (α × Forest α)
  | .nil => []
  | .node a below rest => (a, below) :: (below.subtrees ++ rest.subtrees)

theorem length_walk : ∀ (f : Forest α) (depth : Int), (f.walk depth).length = f.subtrees.length
  | .nil, _ => rfl
  | .node a below rest, depth => by
    simp [walk, subtrees, length_walk below (depth + 1), length_walk rest depth]

theorem roots_subset_subtrees : ∀ f : Forest α, f.roots ⊆ f.subtrees
  | .nil => List.Subset.refl []
  | .node a below rest => by
    apply List.cons_subset_cons
    exact List.Subset.trans (roots_subset_subtrees rest) (List.subset_append_right _ _)

theorem depth_le_of_mem_walk : ∀ {f : Forest α} {depth : Int}, ∀ x ∈ f.walk depth, depth ≤ x.1
  | .node a below rest, depth, x, hx => by
    rw [walk, List.mem_append, List.mem_cons] at hx
    rcases hx with (rfl | hx) | hx
    · exact Int.le_refl depth
    · have := depth_le_of_mem_walk x hx
      omega
    · exact depth_le_of_mem_walk x hx

theorem head?_walk {f : Forest α} {depth : Int} : ∀ x ∈ (f.walk depth).head?, x.1 = depth := by
  intro x hx
  cases f with
  | nil => cases hx
  | node a below rest =>
    cases hx
    rfl

/-- **Behind a node come those below it**, one level down, and then a node that is no deeper than it, if any.  The
induction is on the forest: a place in the walk is that of the first root, or it is below that, or behind it. -/
theorem drop_walk {a : α} {below : Forest α} : ∀ {f : Forest α} {i : Nat}, f.subtrees[i]? = some (a, below) →
    ∀ depth : Int, ∃ d behind, depth ≤ d ∧
      (f.walk depth).drop i = (d, a) :: (below.walk (d + 1) ++ behind) ∧ ∀ x ∈ behind.head?, x.1 ≤ d
  | .node b inner rest, 0, h, depth => by
    cases h
    exact ⟨depth, rest.walk depth, Int.le_refl depth, rfl, fun x hx => Int.le_of_eq (head?_walk x hx)⟩
  | .node b inner rest, i + 1, h, depth => by
    have hdrop : ((Forest.node b inner rest).walk depth).drop (i + 1) =
        (inner.walk (depth + 1)).drop i ++ (rest.walk depth).drop (i - inner.subtrees.length) := by
      rw [walk, List.cons_append, List.drop_succ_cons, List.drop_append, length_walk]
    rw [subtrees, List.getElem?_cons_succ, List.getElem?_append] at h
    rw [hdrop]
    by_cases hi : i < inner.subtrees.length
    · rw [if_pos hi] at h
      obtain ⟨d, behind, hd, hwalk, hbehind⟩ := drop_walk h (depth + 1)
      refine ⟨d, behind ++ rest.walk depth, by omega, ?_, ?_⟩
      · rw [hwalk, Nat.sub_eq_zero_of_le (Nat.le_of_lt hi), List.drop_zero, List.cons_append, List.append_assoc]
      · intro x hx
        cases behind with
        | nil =>
          rw [head?_walk x hx]
          omega
        | cons y behind => exact hbehind x hx
    · rw [if_neg hi] at h
      obtain ⟨d, behind, hd, hwalk, hbehind⟩ := drop_walk h depth
      refine ⟨d, behind, hd, ?_, hbehind⟩
      rw [hwalk, List.drop_of_length_le (by rw [length_walk]; omega), List.nil_append]

/-! ## Walks begun at another depth -/

theorem walk_add (e : Int) : ∀ (f : Forest α) (depth : Int),
    f.walk (depth + e) = (f.walk depth).map (fun x => (x.1 + e, x.2))
  | .nil, _ => rfl
  | .node a below rest, depth => by
    have hbelow := walk_add e below (depth + 1)
    rw [show depth + 1 + e = depth + e + 1 by omega] at hbelow
    rw [walk, walk, hbelow, walk_add e rest depth, List.map_append]
    rfl

/-- Where the depth below an integer is the next one, depths of any kind are integers. -/
theorem walkFrom_int {ε : Type} {next : Datum → Except ε Datum} (h : ∀ n : Int, next (.int n) = .ok (.int (n + 1))) :
    ∀ (f : Forest α) (depth : Int),
      f.walkFrom next (.int depth) = .ok ((f.walk depth).map (fun x => (.int x.1, x.2)))
  | .nil, _ => rfl
  | .node a .nil rest, depth => by
    rw [walkFrom, walkFrom_int h rest depth]
    rfl
  | .node a (.node b inner beside) rest, depth => by
    have hbelow := walkFrom_int h (.node b inner beside) (depth + 1)
    rw [walkFrom, h depth, walkFrom_int h rest depth, walk]
    · show (walkFrom next (.int (depth + 1)) (.node b inner beside) >>= _) = _
      rw [hbelow, List.map_append]
      rfl
    · intro h
      cases h

/-! ## Depths that a walk can have -/

/-- Labels whose levels begin at a given one, never fall below it, and never rise by more than one. -/
structure Stepwise (level : Nat) (ls : List (Nat × α)) : Prop where
  head : ∀ x ∈ ls.head?, x.1 = level
  le : ∀ x ∈ ls, level ≤ x.1
  step : ls.IsChain (fun x y => y.1 ≤ x.1 + 1)

theorem stepwise_levels : ∀ (f : Forest α) (level : Nat), Stepwise level (f.levels level)
  | .nil, _ => ⟨nofun, nofun, .nil⟩
  | .node a below rest, level => by
    refine ⟨fun x hx => head?_levels hx, le_of_mem_levels, ?_⟩
    have hbelow := stepwise_levels below (level + 1)
    have hrest := stepwise_levels rest level
    rw [levels, List.cons_append, List.isChain_cons, List.isChain_append]
    refine ⟨fun y hy => ?_, hbelow.step, hrest.step, fun x hx y hy => ?_⟩
    · -- what follows a root is one below it, or the next root
      cases below with
      | nil => exact Nat.le_succ_of_le (Nat.le_of_eq (hrest.head y hy))
      | node b inner beside => exact Nat.le_of_eq (hbelow.head y hy)
    · have hx := hbelow.le x (List.mem_of_getLast? hx)
      rw [hrest.head y hy]
      omega

namespace Stepwise

variable {level : Nat} {a : α} {ls : List (Nat × α)}

/-- The labels below the first one begin one level down. -/
theorem takeWhile (h : Stepwise level ((level, a) :: ls)) : Stepwise (level + 1) (ls.takeWhile (isBelow level)) := by
  obtain ⟨hfirst, hstep⟩ := List.isChain_cons.1 h.step
  have hdeeper : ∀ x ∈ ls.takeWhile (isBelow level), level + 1 ≤ x.1 := fun x hx => by
    have hbelow : isBelow level x = true := List.mem_takeWhile_imp hx
    exact of_decide_eq_true hbelow
  refine ⟨fun x hx => ?_, hdeeper, hstep.prefix (List.takeWhile_prefix _)⟩
  have hx' : x ∈ ls.head? := by
    cases ls with
    | nil => exact hx
    | cons y ls =>
      rw [List.takeWhile_cons] at hx
      split at hx
      · exact hx
      · cases hx
  apply Nat.le_antisymm
  · exact hfirst x hx'
  · exact hdeeper x (List.mem_of_mem_head? hx)

/-- The labels behind these begin at the level of the first one. -/
theorem dropWhile (h : Stepwise level ((level, a) :: ls)) : Stepwise level (ls.dropWhile (isBelow level)) := by
  have hsub : ∀ x ∈ ls.dropWhile (isBelow level), level ≤ x.1 := fun x hx =>
    h.le x (List.mem_cons_of_mem _ ((List.dropWhile_sublist _).subset hx))
  refine ⟨fun x hx => ?_, hsub, (List.isChain_cons.1 h.step).2.suffix (List.dropWhile_suffix _)⟩
  have hnot : ¬ level < x.1 := of_decide_eq_false (head_dropWhile _ ls x hx)
  have hle := hsub x (List.mem_of_mem_head? hx)
  omega

end Stepwise

/-- **Levels that rise by one at most are those of their forest.** -/
theorem levels_ofLevels (ls : List (Nat × α)) : ∀ level, Stepwise level ls → (ofLevels ls).levels level = ls := by
  fun_induction ofLevels ls with
  | case1 => exact fun _ _ => rfl
  | case2 l a rest hbelow hrest =>
    intro level h
    obtain rfl : l = level := h.head (l, a) rfl
    rw [levels, hbelow (l + 1) h.takeWhile, hrest l h.dropWhile, List.cons_append, List.takeWhile_append_dropWhile]

/-- The levels of a walk are its depths. -/
theorem levels_eq_of_walk {f : Forest α} {w : List (Nat × α)}
    (h : f.walk 0 = w.map (fun x => ((x.1 : Int), x.2))) : f.levels 0 = w := by
  have hcast (v : List (Nat × α)) : (v.map (fun x => ((x.1 : Int), x.2))).map (fun x => (x.1.toNat, x.2)) = v := by
    rw [List.map_map]
    exact List.map_id v
  rw [← Int.natCast_zero, walk_eq_levels] at h
  rw [← hcast (f.levels 0), h, hcast w]

/-- **The walk is injective**: the forest can be read off it. -/
theorem walk_injective {f g : Forest α} (h : g.walk 0 = f.walk 0) : g = f := by
  rw [← Int.natCast_zero, walk_eq_levels f] at h
  rw [← ofLevels_levels g 0, levels_eq_of_walk h, ofLevels_levels f 0]

/-- **Labels whose depths rise by one at most are the walk of a forest.** -/
theorem exists_walk {w : List (Nat × α)} (h : Stepwise 0 w) :
    ∃ f : Forest α, f.walk 0 = w.map (fun x => ((x.1 : Int), x.2)) := by
  refine ⟨ofLevels w, ?_⟩
  rw [← Int.natCast_zero, walk_eq_levels, levels_ofLevels w 0 h]

/-! ## Depth and descent -/

/-- How many nodes a forest has one below the other. -/
def height : Forest α → Nat
  | .nil => 0
  | .node _ below rest => max (below.height + 1) rest.height

/-- Nodes of a forest each of which is a child of the one before it. -/
structure Lineage (f : Forest α) (line : List (α × Forest α)) : Prop where
  mem : ∀ x ∈ line, x ∈ f.subtrees
  child : line.IsChain (fun x y => y ∈ x.2.roots)

/-- The greatest depth on a walk that begins at some depth, where one depth less has been met before. -/
theorem foldl_max_walk : ∀ (f : Forest α) (depth m : Int), depth ≤ m + 1 →
    ((f.walk depth).map Prod.fst).foldl max m = max m (depth + f.height - 1)
  | .nil, depth, m, h => by
    simp only [walk, List.map_nil, List.foldl_nil, height]
    omega
  | .node a below rest, depth, m, h => by
    have hbelow := foldl_max_walk below (depth + 1) (max m depth) (by omega)
    have hrest := foldl_max_walk rest depth (max (max m depth) (depth + 1 + below.height - 1)) (by omega)
    rw [walk, List.cons_append, List.map_cons, List.map_append, List.foldl_cons, List.foldl_append, hbelow, hrest,
      height]
    omega

theorem depth_eq (f : Forest α) : f.depth = ((f.height - 1 : Nat) : Int) := by
  have hmax := foldl_max_walk f 0 0 (by omega)
  rw [depth, hmax]
  omega

theorem height_lt_of_mem_subtrees : ∀ {f : Forest α}, ∀ x ∈ f.subtrees, x.2.height < f.height
  | .node a below rest, x, hx => by
    rw [subtrees, List.mem_cons, List.mem_append] at hx
    rw [height]
    rcases hx with rfl | hx | hx
    · exact Nat.lt_of_lt_of_le (Nat.lt_succ_self _) (Nat.le_max_left _ _)
    · have := height_lt_of_mem_subtrees x hx
      omega
    · have := height_lt_of_mem_subtrees x hx
      omega

theorem length_le_of_isChain {x : α × Forest α} {line : List (α × Forest α)} :
    (x :: line).IsChain (fun x y => y ∈ x.2.roots) → line.length ≤ x.2.height := by
  induction line generalizing x with
  | nil => exact fun _ => Nat.zero_le _
  | cons y line ih =>
    intro h
    obtain ⟨hy, hline⟩ := List.isChain_cons_cons.1 h
    have hlt := height_lt_of_mem_subtrees y (roots_subset_subtrees _ hy)
    have hle := ih hline
    rw [List.length_cons]
    omega

/-- **No line of descent is longer than its forest is high.** -/
theorem length_lineage_le {f : Forest α} {line : List (α × Forest α)} (h : f.Lineage line) :
    line.length ≤ f.height := by
  cases line with
  | nil => exact Nat.zero_le _
  | cons x line =>
    have hlt := height_lt_of_mem_subtrees x (h.mem x List.mem_cons_self)
    have hle := length_le_of_isChain h.child
    rw [List.length_cons]
    omega

/-- **One is as long**, and begins at a root.  The induction is on the forest: the longest line of descent is that of
the first root, with the root in front, or that of the roots beside it. -/
theorem exists_lineage : ∀ f : Forest α,
    ∃ line, f.Lineage line ∧ line.length = f.height ∧ ∀ x ∈ line.head?, x ∈ f.roots
  | .nil => ⟨[], ⟨nofun, .nil⟩, rfl, nofun⟩
  | .node a below rest => by
    by_cases h : below.height + 1 ≤ rest.height
    · obtain ⟨line, hline, hlength, hhead⟩ := exists_lineage rest
      refine ⟨line, ⟨fun x hx => ?_, hline.child⟩, ?_, fun x hx => ?_⟩
      · exact List.mem_cons_of_mem _ (List.mem_append_right _ (hline.mem x hx))
      · rw [hlength, height]
        omega
      · exact List.mem_cons_of_mem _ (hhead x hx)
    · obtain ⟨line, hline, hlength, hhead⟩ := exists_lineage below
      refine ⟨(a, below) :: line, ⟨?_, ?_⟩, ?_, ?_⟩
      · rw [List.forall_mem_cons]
        exact ⟨List.mem_cons_self, fun x hx => List.mem_cons_of_mem _ (List.mem_append_left _ (hline.mem x hx))⟩
      · exact List.isChain_cons.2 ⟨hhead, hline.child⟩
      · rw [List.length_cons, hlength, height]
        omega
      · rintro x ⟨⟩
        exact List.mem_cons_self

theorem height_ne_zero {f : Forest α} (h : f ≠ .nil) : f.height ≠ 0 := by
  cases f with
  | nil => exact absurd rfl h
  | node a below rest =>
    rw [height]
    omega

end Forest

namespace Outline

/-- **The walk of an outline determines the outline.**  Its depths begin at zero and never rise by more than one, and
any labels with such depths are the walk of some entries.  It has one element for every entry, right behind which come
those of the entries below it, up to one that is no deeper.  No other forest has the same walk.  Begun at any integer,
all depths are higher by that much.  And the depth of an outline is one less than the number of entries in its longest
line of descent, or zero where there is none. -/
theorem walk_determines (f : Forest Entry) :
    (∃ w : List (Nat × Entry), f.walk 0 = w.map (fun x => ((x.1 : Int), x.2)) ∧
      (∀ x ∈ w.head?, x.1 = 0) ∧ w.IsChain (fun x y => y.1 ≤ x.1 + 1)) ∧
    (∀ w : List (Nat × Entry), (∀ x ∈ w.head?, x.1 = 0) → w.IsChain (fun x y => y.1 ≤ x.1 + 1) →
      ∃ g : Forest Entry, g.walk 0 = w.map (fun x => ((x.1 : Int), x.2))) ∧
    (f.walk 0).length = f.subtrees.length ∧
    (∀ i e below, f.subtrees[i]? = some (e, below) → ∃ d behind,
      (f.walk 0).drop i = (d, e) :: (below.walk (d + 1) ++ behind) ∧
        (∀ x ∈ below.walk (d + 1), d < x.1) ∧ ∀ x ∈ behind.head?, x.1 ≤ d) ∧
    (∀ g : Forest Entry, g.walk 0 = f.walk 0 → g = f) ∧
    (∀ d : Int, f.walkFrom depthBelow (.int d) = .ok ((f.walk 0).map (fun x => (.int (x.1 + d), x.2)))) ∧
    ∀ text unit, let o : Outline := ⟨text, unit, f⟩
      (f = .nil → o.depth = 0) ∧
      (f ≠ .nil → (∃ line, f.Lineage line ∧ (line.length : Int) - 1 = o.depth) ∧
        ∀ line, f.Lineage line → (line.length : Int) - 1 ≤ o.depth) := by
  have hsteps := Forest.stepwise_levels f 0
  have hdepth (text unit) : (Outline.mk text unit f).depth = ((f.height - 1 : Nat) : Int) := Forest.depth_eq f
  refine ⟨⟨f.levels 0, Forest.walk_eq_levels f 0, hsteps.head, hsteps.step⟩, fun w hhead hstep => ?_,
    Forest.length_walk f 0, fun i e below h => ?_, fun g h => Forest.walk_injective h, fun d => ?_,
    fun text unit => ⟨fun h => ?_, fun h => ⟨?_, fun line hline => ?_⟩⟩⟩
  · exact Forest.exists_walk ⟨hhead, fun x _ => Nat.zero_le x.1, hstep⟩
  · obtain ⟨d, behind, -, hwalk, hbehind⟩ := Forest.drop_walk h 0
    refine ⟨d, behind, hwalk, fun x hx => ?_, hbehind⟩
    have := Forest.depth_le_of_mem_walk x hx
    omega
  · have hwalk := Forest.walk_add d f 0
    rw [Int.zero_add] at hwalk
    rw [Forest.walkFrom_int fun n => rfl, hwalk, List.map_map]
    rfl
  · rw [h]
    rfl
  · obtain ⟨line, hline, hlength, -⟩ := Forest.exists_lineage f
    refine ⟨line, hline, ?_⟩
    have hne := Forest.height_ne_zero h
    rw [hdepth]
    omega
  · have hle := Forest.length_lineage_le hline
    rw [hdepth]
    omega

/-- Two entries below one another, and one beside them. -/
def nestedEntries : Forest Entry :=
  .node ⟨"a", .int 1⟩ (.node ⟨"b", .int 2⟩ (.node ⟨"c", .int 3⟩ .nil .nil) .nil) (.node ⟨"d", .int 5⟩ .nil .nil)

theorem walk_determines_nested :
    let w : List (Nat × Entry) :=
      [(0, ⟨"a", .int 1⟩), (1, ⟨"b", .int 2⟩), (2, ⟨"c", .int 3⟩), (0, ⟨"d", .int 5⟩)]
    (∃ g : Forest Entry, g.walk 0 = w.map (fun x => ((x.1 : Int), x.2))) ∧
      (∀ g : Forest Entry, g.walk 0 = w.map (fun x => ((x.1 : Int), x.2)) → g = nestedEntries) ∧
      (∃ d behind, (nestedEntries.walk 0).drop 1 = (d, ⟨"b", .int 2⟩) :: ([(d + 1, ⟨"c", .int 3⟩)] ++ behind) ∧
        ∀ x ∈ behind.head?, x.1 ≤ d) ∧
      ∃ line, nestedEntries.Lineage line ∧ (line.length : Int) - 1 = 2 := by
  intro w
  obtain ⟨-, hexists, -, hdrop, hinjective, -, hdepth⟩ := walk_determines nestedEntries
  have hwalk : nestedEntries.walk 0 = w.map (fun x => ((x.1 : Int), x.2)) := by decide
  refine ⟨hexists w (by decide) (by decide), fun g hg => hinjective g (hg.trans hwalk.symm), ?_, ?_⟩
  · obtain ⟨d, behind, hbelow, -, hbehind⟩ := hdrop 1 ⟨"b", .int 2⟩ (.node ⟨"c", .int 3⟩ .nil .nil) rfl
    exact ⟨d, behind, hbelow, hbehind⟩
  · exact ((hdepth "" 0).2 nofun).1

end Outline
end Offside
