import Offside.Outline.Forest
import Offside.Proofs.Cuts
/-!
# Forests of levels

Labels with levels make a forest: below a label stand those that come next as long as they are deeper, and the first
that is not stands beside it (`Forest.ofLevels`).  Levels need not rise one by one, so this is no inverse of the walk,
which counts depths; but a forest is that of its own depths (`ofLevels_levels`), and of any levels in the same order.

In such a forest the parent of a node is the nearest label in front of it that has a smaller level
(`parents_ofLevels`), and that alone makes the forest what it is.
-/
namespace Offside
namespace Forest

variable {α β : Type}

/-- Whether a label is deeper than a level. -/
def isBelow (level : Nat) (x : Nat × α) : Bool :=
  level < x.1

/-- The forest of some labels with levels. -/
def ofLevels : List (Nat × α) → Forest α
  | [] => .nil
  | (l, a) :: rest => .node a (ofLevels (rest.takeWhile (isBelow l))) (ofLevels (rest.dropWhile (isBelow l)))
termination_by ls => ls.length
decreasing_by
  · exact Nat.lt_succ_of_le (List.takeWhile_sublist _).length_le
  · exact Nat.lt_succ_of_le (List.dropWhile_sublist _).length_le

/-- For every node of a forest, in the order of the walk, the place of its parent in that order; there are `start`
nodes in front of the forest, and its roots have a given parent. -/
def parentsFrom (start : Nat) (parent : Option Nat) : Forest α → List (Option Nat)
  | .nil => []
  | .node _ below rest =>
    parent :: below.parentsFrom (start + 1) (some start) ++ rest.parentsFrom (start + 1 + below.labels.length) parent

def parents (f : Forest α) : List (Option Nat) :=
  f.parentsFrom 0 none

theorem labels_ofLevels (ls : List (Nat × α)) : (ofLevels ls).labels = ls.map Prod.snd := by
  fun_induction ofLevels ls with
  | case1 => rfl
  | case2 l a rest hbelow hrest =>
    rw [labels, hbelow, hrest, List.cons_append, ← List.map_append, List.takeWhile_append_dropWhile]
    rfl

theorem labels_map (f : α → β) : ∀ forest : Forest α, (forest.map f).labels = forest.labels.map f
  | .nil => rfl
  | .node a below rest => by simp [map, labels, labels_map f below, labels_map f rest]

theorem length_parentsFrom : ∀ (f : Forest α) (start : Nat) (parent : Option Nat),
    (f.parentsFrom start parent).length = f.labels.length
  | .nil, _, _ => rfl
  | .node a below rest, start, parent => by
    simp [parentsFrom, labels, length_parentsFrom below, length_parentsFrom rest]

/-! ## Levels that are taken together or apart -/

/-- Behind labels that are no less deep, a label begins a new root. -/
theorem roots_ofLevels_append (y : Nat × α) (zs : List (Nat × α)) (ls : List (Nat × α)) : (∀ x ∈ ls, y.1 ≤ x.1) →
    (ofLevels (ls ++ y :: zs)).roots = (ofLevels ls).roots ++ (ofLevels (y :: zs)).roots := by
  fun_induction ofLevels ls with
  | case1 => exact fun _ => rfl
  | case2 l a rest _ hrest =>
    intro h
    have hy : isBelow l y = false := decide_eq_false (Nat.not_lt.2 (h _ List.mem_cons_self))
    have hsub : ∀ x ∈ rest.dropWhile (isBelow l), y.1 ≤ x.1 := fun x hx =>
      h x (List.mem_cons_of_mem _ ((List.dropWhile_sublist _).subset hx))
    rw [List.cons_append, ofLevels, takeWhile_append_cons hy, dropWhile_append_cons hy, roots, hrest hsub]
    rfl

theorem ofLevels_cons_of_lt {y : Nat × α} {zs : List (Nat × α)} (h : ∀ x ∈ zs, y.1 < x.1) :
    ofLevels (y :: zs) = .node y.2 (ofLevels zs) .nil := by
  have hz : ∀ x ∈ zs, isBelow y.1 x = true := fun x hx => decide_eq_true (h x hx)
  rw [ofLevels, List.takeWhile_eq_self_iff.2 hz, List.dropWhile_eq_nil_iff.2 hz, ofLevels]

theorem map_ofLevels (f : α → β) (ls : List (Nat × α)) :
    (ofLevels ls).map f = ofLevels (ls.map (fun x => (x.1, f x.2))) := by
  fun_induction ofLevels ls with
  | case1 => rw [List.map_nil, ofLevels, map]
  | case2 l a rest hbelow hrest =>
    rw [map, hbelow, hrest, List.map_cons, ofLevels, List.takeWhile_map, List.dropWhile_map]
    rfl

/-! ## Levels of a forest -/

/-- The nodes of a forest with their depths as levels, where the forest itself stands at a given one. -/
def levels (level : Nat) : Forest α → List (Nat × α)
  | .nil => []
  | .node a below rest => (level, a) :: below.levels (level + 1) ++ rest.levels level

theorem walk_eq_levels : ∀ (f : Forest α) (level : Nat),
    f.walk level = (f.levels level).map (fun x => ((x.1 : Int), x.2))
  | .nil, _ => rfl
  | .node a below rest, level => by
    have hbelow := walk_eq_levels below (level + 1)
    rw [Int.natCast_add, Int.natCast_one] at hbelow
    rw [walk, levels, hbelow, walk_eq_levels rest level, List.map_append]
    rfl

theorem map_snd_levels (f : Forest α) (level : Nat) : (f.levels level).map Prod.snd = f.labels := by
  rw [← map_snd_walk f level, walk_eq_levels, List.map_map]
  rfl

theorem le_of_mem_levels : ∀ {f : Forest α} {level : Nat}, ∀ x ∈ f.levels level, level ≤ x.1
  | .node a below rest, level, x, hx => by
    rw [levels, List.mem_append, List.mem_cons] at hx
    rcases hx with (rfl | hx) | hx
    · exact Nat.le_refl level
    · exact Nat.le_of_succ_le (le_of_mem_levels x hx)
    · exact le_of_mem_levels x hx

theorem head?_levels {f : Forest α} {level : Nat} {x : Nat × α} (h : (f.levels level).head? = some x) :
    x.1 = level := by
  cases f with
  | nil => cases h
  | node a below rest =>
    cases h
    rfl

theorem ofLevels_levels : ∀ (f : Forest α) (level : Nat), ofLevels (f.levels level) = f
  | .nil, _ => by rw [levels, ofLevels]
  | .node a below rest, level => by
    have hbelow : ∀ x ∈ below.levels (level + 1), isBelow level x = true := fun x hx =>
      decide_eq_true (le_of_mem_levels x hx)
    have hrest : ∀ x ∈ (rest.levels level).head?, isBelow level x = false := fun x hx => by
      rw [isBelow, head?_levels hx]
      exact decide_eq_false (Nat.lt_irrefl level)
    rw [levels, List.cons_append, ofLevels, takeWhile_append hrest, dropWhile_append hrest,
      List.takeWhile_eq_self_iff.2 hbelow, List.dropWhile_eq_nil_iff.2 hbelow, List.nil_append, ofLevels_levels below,
      ofLevels_levels rest]

/-- Levels matter to a forest by their order alone. -/
theorem ofLevels_relabel {g : Nat → Nat} (hg : ∀ l m, g l < g m ↔ l < m) (ls : List (Nat × α)) :
    ofLevels (ls.map (fun x : Nat × α => (g x.1, x.2))) = ofLevels ls := by
  fun_induction ofLevels ls with
  | case1 => rw [List.map_nil, ofLevels]
  | case2 l a rest hbelow hrest =>
    have hp : isBelow (g l) ∘ (fun x : Nat × α => (g x.1, x.2)) = isBelow l :=
      funext fun x => decide_eq_decide.2 (hg l x.1)
    rw [List.map_cons, ofLevels, List.takeWhile_map, List.dropWhile_map, hp, hbelow, hrest]

/-- A forest does not go down two levels at once, so the first depth other than zero is one. -/
theorem find?_levels : ∀ f : Forest α,
    ((f.levels 0).map Prod.fst).find? (0 < ·) = none ∨ ((f.levels 0).map Prod.fst).find? (0 < ·) = some 1
  | .nil => .inl rfl
  | .node _ .nil rest => find?_levels rest
  | .node _ (.node _ _ _) _ => .inr rfl

/-! ## Parents -/

/-- The place of the last of some levels that is less than a given one; the last comes first here. -/
def lastLess (level : Nat) : List Nat → Option Nat
  | [] => none
  | l :: before => if l < level then some before.length else lastLess level before

/-- For each level the place of the nearest smaller one in front of it, where some levels come before them all. -/
def nearestLess (before : List Nat) : List Nat → List (Option Nat)
  | [] => []
  | l :: ls => lastLess l before :: nearestLess (l :: before) ls

theorem lastLess_append {level : Nat} {before : List Nat} :
    ∀ {deeper : List Nat}, (∀ l ∈ deeper, level ≤ l) → lastLess level (deeper ++ before) = lastLess level before
  | [], _ => rfl
  | l :: deeper, h => by
    rw [List.cons_append, lastLess, if_neg (Nat.not_lt.2 (h l List.mem_cons_self))]
    exact lastLess_append fun x hx => h x (List.mem_cons_of_mem _ hx)

theorem nearestLess_append (ls ms : List Nat) : ∀ before : List Nat,
    nearestLess before (ls ++ ms) = nearestLess before ls ++ nearestLess (ls.reverse ++ before) ms := by
  induction ls with
  | nil => exact fun _ => rfl
  | cons l ls ih =>
    intro before
    rw [List.cons_append, nearestLess, ih, nearestLess, List.reverse_cons, List.append_assoc]
    rfl

/-- The induction is on the levels.  What carries it is that every level up to the first one has the given parent: that
is so of the next root, because it is no deeper than this one, and because all that stands below this one is. -/
theorem parentsFrom_ofLevels (ls : List (Nat × α)) : ∀ (before : List Nat) (parent : Option Nat),
    (∀ x ∈ ls, ∀ y ∈ ls.head?, x.1 ≤ y.1 → lastLess x.1 before = parent) →
    (ofLevels ls).parentsFrom before.length parent = nearestLess before (ls.map Prod.fst) := by
  fun_induction ofLevels ls with
  | case1 => exact fun _ _ _ => rfl
  | case2 l a rest hbelow hrest =>
    intro before parent h
    have hhead : lastLess l before = parent := h (l, a) List.mem_cons_self (l, a) rfl (Nat.le_refl l)
    have hdeeper : ∀ x ∈ rest.takeWhile (isBelow l), l < x.1 := fun x hx => by
      have hbelow : isBelow l x = true := List.mem_takeWhile_imp hx
      exact of_decide_eq_true hbelow
    have hb := hbelow (l :: before) (some before.length) fun x hx _ _ _ => by rw [lastLess, if_pos (hdeeper x hx)]
    have hr := hrest (((rest.takeWhile (isBelow l)).map Prod.fst).reverse ++ l :: before) parent fun x hx y hy hxy => by
      have hyl : ¬ l < y.1 := by
        have := List.head?_dropWhile_not (isBelow l) rest
        rw [Option.mem_def.1 hy] at this
        simpa [isBelow] using this
      rw [lastLess_append, lastLess, if_neg (by omega)]
      · exact h x (List.mem_cons_of_mem _ ((List.dropWhile_sublist _).subset hx)) (l, a) rfl (by omega)
      · intro m hm
        obtain ⟨z, hz, rfl⟩ := List.mem_map.1 (List.mem_reverse.1 hm)
        have := hdeeper z hz
        omega
    have hlength : (((rest.takeWhile (isBelow l)).map Prod.fst).reverse ++ l :: before).length =
        before.length + 1 + (ofLevels (rest.takeWhile (isBelow l))).labels.length := by
      simp [labels_ofLevels]
      omega
    rw [hlength] at hr
    rw [parentsFrom, hr, ← List.length_cons (a := l), hb, List.map_cons, nearestLess, hhead, List.cons_append,
      ← nearestLess_append, ← List.map_append, List.takeWhile_append_dropWhile]

theorem parents_ofLevels (ls : List (Nat × α)) : (ofLevels ls).parents = nearestLess [] (ls.map Prod.fst) :=
  parentsFrom_ofLevels ls [] none fun _ _ _ _ _ => rfl

/-- Whether a place is that of the nearest level in front of a place that is less than a given one, or there is none. -/
def IsLastLess (level : Nat → Nat) (l i : Nat) : Option Nat → Prop
  | none => ∀ j < i, l ≤ level j
  | some p => p < i ∧ level p < l ∧ ∀ j, p < j → j < i → l ≤ level j

theorem isLastLess_lastLess (level : Nat → Nat) (l : Nat) :
    ∀ i, IsLastLess level l i (lastLess l ((List.range i).map level).reverse)
  | 0 => fun j hj => absurd hj (Nat.not_lt_zero j)
  | i + 1 => by
    have hlast : ((List.range (i + 1)).map level).reverse = level i :: ((List.range i).map level).reverse := by
      rw [List.range_succ, List.map_append, List.reverse_append]
      rfl
    rw [hlast, lastLess]
    have ih := isLastLess_lastLess level l i
    by_cases hi : level i < l
    · rw [if_pos hi, List.length_reverse, List.length_map, List.length_range]
      exact ⟨Nat.lt_succ_self i, hi, fun j _ _ => by omega⟩
    · rw [if_neg hi]
      cases hp : lastLess l ((List.range i).map level).reverse with
      | none =>
        rw [hp] at ih
        intro j hj
        by_cases hji : j = i
        · rw [hji]; omega
        · exact ih j (by omega)
      | some p =>
        rw [hp] at ih
        obtain ⟨hpi, hlt, hbetween⟩ := ih
        refine ⟨by omega, hlt, fun j hpj hj => ?_⟩
        by_cases hji : j = i
        · rw [hji]; omega
        · exact hbetween j hpj (by omega)

theorem getElem?_nearestLess : ∀ (ls before : List Nat) (i : Nat),
    (nearestLess before ls)[i]? = ls[i]?.map (fun l => lastLess l ((ls.take i).reverse ++ before))
  | [], _, _ => rfl
  | l :: ls, before, 0 => rfl
  | l :: ls, before, i + 1 => by
    rw [nearestLess, List.getElem?_cons_succ, getElem?_nearestLess ls, List.getElem?_cons_succ, List.take_succ_cons,
      List.reverse_cons, List.append_assoc]
    rfl

/-- **The parent of a node is the nearest label in front of it that has a smaller level**, and the roots are the labels
with none. -/
theorem parent_ofLevels (ls : List (Nat × α)) {i : Nat} (hi : i < ls.length) :
    let level (j : Nat) := (ls.map Prod.fst).getD j 0
    ∃ p, (ofLevels ls).parents[i]? = some p ∧ IsLastLess level (level i) i p := by
  intro level
  have hlevel : (ls.map Prod.fst)[i]? = some (level i) := by
    simp [level, hi]
  have hbefore : (ls.map Prod.fst).take i = (List.range i).map level := by
    refine List.ext_getElem (by simp; omega) fun j hj _ => ?_
    have hj : j < ls.length := by rw [List.length_take] at hj; omega
    simp [level, hj]
  refine ⟨_, by rw [parents_ofLevels, getElem?_nearestLess, hlevel, Option.map_some], ?_⟩
  rw [List.append_nil, hbefore]
  exact isLastLess_lastLess level (level i) i

end Forest
end Offside
