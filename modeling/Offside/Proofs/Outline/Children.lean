import Offside.Proofs.Outline.Parsing
/-!
# Children and their parents

What stands below an entry comes from lines that are indented more than its own line, where the first line of a text
counts as not indented at all.  So a first line that is indented may have lines below it that are not indented more than
it is; where that is not so, what stands below an entry does have more leading blanks (`deeper_of_parseText`).
-/
namespace Offside

namespace Forest

variable {α β : Type}

/-- Whether a label stands somewhere below another one. -/
def Above : Forest α → α → α → Prop
  | .nil, _, _ => False
  | .node x below rest, a, d => (x = a ∧ d ∈ below.labels) ∨ below.Above a d ∨ rest.Above a d

theorem above_map (g : α → β) {a d : β} : ∀ f : Forest α, (f.map g).Above a d ↔ ∃ x y, f.Above x y ∧ g x = a ∧ g y = d
  | .nil => by simp [map, Above]
  | .node x below rest => by
    rw [map, Above, above_map g below, above_map g rest, labels_map, List.mem_map]
    constructor
    · rintro (⟨hx, y, hy, hd⟩ | ⟨x', y, h, hx, hd⟩ | ⟨x', y, h, hx, hd⟩)
      · exact ⟨x, y, .inl ⟨rfl, hy⟩, hx, hd⟩
      · exact ⟨x', y, .inr (.inl h), hx, hd⟩
      · exact ⟨x', y, .inr (.inr h), hx, hd⟩
    · rintro ⟨x', y, ⟨rfl, hy⟩ | h | h, hx, hd⟩
      · exact .inl ⟨hx, y, hy, hd⟩
      · exact .inr (.inl ⟨x', y, h, hx, hd⟩)
      · exact .inr (.inr ⟨x', y, h, hx, hd⟩)

/-- What stands below a label comes behind it and is deeper. -/
theorem exists_levels_of_above {a d : α} (ls : List (Nat × α)) :
    (ofLevels ls).Above a d → ∃ l m, l < m ∧ [(l, a), (m, d)].Sublist ls := by
  fun_induction ofLevels ls with
  | case1 => exact False.elim
  | case2 l x rest hbelow hrest =>
    rintro (⟨rfl, hd⟩ | h | h)
    · rw [labels_ofLevels, List.mem_map] at hd
      obtain ⟨⟨m, d⟩, hm, rfl⟩ := hd
      have hlt : isBelow l (m, d) = true := List.mem_takeWhile_imp hm
      refine ⟨l, m, of_decide_eq_true hlt, .cons_cons _ (List.singleton_sublist.2 ?_)⟩
      exact (List.takeWhile_sublist _).subset hm
    · obtain ⟨k, m, hlt, hsub⟩ := hbelow h
      exact ⟨k, m, hlt, .cons _ (hsub.trans (List.takeWhile_sublist _))⟩
    · obtain ⟨k, m, hlt, hsub⟩ := hrest h
      exact ⟨k, m, hlt, .cons _ (hsub.trans (List.dropWhile_sublist _))⟩

theorem above_ofLevels_head {l : Nat} {a d : α} {rest : List (Nat × α)} (ha : ∀ x ∈ rest, x.2 ≠ a) :
    (ofLevels ((l, a) :: rest)).Above a d ↔ d ∈ (rest.takeWhile (isBelow l)).map Prod.snd := by
  rw [ofLevels, Above, labels_ofLevels]
  constructor
  · rintro (⟨-, hd⟩ | h | h)
    · exact hd
    · obtain ⟨k, m, -, hsub⟩ := exists_levels_of_above _ h
      exact absurd rfl (ha (k, a) ((List.takeWhile_sublist _).subset (hsub.subset List.mem_cons_self)))
    · obtain ⟨k, m, -, hsub⟩ := exists_levels_of_above _ h
      exact absurd rfl (ha (k, a) ((List.dropWhile_sublist _).subset (hsub.subset List.mem_cons_self)))
  · exact fun hd => .inl ⟨rfl, hd⟩

end Forest

namespace Outline

/-- The lines of a text are known by their numbers. -/
theorem Line.eq_of_number {start : Nat} {lines : List (List Char)} {l m : Line} (hl : l ∈ Line.numbered start lines)
    (hm : m ∈ Line.numbered start lines) (h : l.number = m.number) : l = m := by
  obtain ⟨⟨chars, i⟩, hx, rfl⟩ := List.mem_map.1 hl
  obtain ⟨⟨chars', j⟩, hy, rfl⟩ := List.mem_map.1 hm
  obtain rfl : i = j := h
  have hx := List.mk_mem_zipIdx_iff_le_and_getElem?_sub.1 hx
  have hy := List.mk_mem_zipIdx_iff_le_and_getElem?_sub.1 hy
  rw [Option.some.inj (hx.2.symm.trans hy.2)]

/-- Only the first of the lines with content can be the first line of the text. -/
theorem number_of_mem_tail (cs : List Char) : ∀ m ∈ (contentLines cs).tail, m.number ≠ 1 := by
  intro m hm
  obtain ⟨first, lines, hlines⟩ := List.exists_cons_of_ne_nil (List.splitOn_ne_nil '\n' cs)
  have hmem : m ∈ Line.numbered 2 lines := by
    rw [contentLines, hlines, Line.numbered_cons, List.filter_cons] at hm
    split at hm
    · exact (List.mem_filter.1 hm).1
    · exact (List.mem_filter.1 (List.mem_of_mem_tail hm)).1
  have := Line.le_number_of_mem m hmem
  omega

theorem eq_of_entry {cs : List Char} {l m : Line} (hl : l ∈ contentLines cs) (hm : m ∈ contentLines cs)
    (h : l.entry = m.entry) : l = m := by
  have hnumber : Datum.int l.number = .int m.number := congrArg Entry.line h
  exact Line.eq_of_number (List.mem_filter.1 hl).1 (List.mem_filter.1 hm).1 (Int.ofNat.inj (Datum.int.inj hnumber))

/-! ## The forest of the lines -/

/-- The lines of a text as a forest, by their depths. -/
def Line.forest (width : Nat) (ls : List Line) : Forest Line :=
  Forest.ofLevels (ls.map (fun l => (l.indentation / width, l)))

namespace Line

variable {width : Nat} {ls : List Line}

theorem map_entry_forest (width : Nat) (ls : List Line) :
    (forest width ls).map entry = Forest.ofLevels (depths width ls) := by
  rw [forest, Forest.map_ofLevels, List.map_map]
  rfl

theorem indentation_of_ne_one {l : Line} (h : l.number ≠ 1) : l.indentation = l.leading :=
  if_neg h

/-- What stands below a line comes behind it and is indented more. -/
theorem lt_of_above {l m : Line} (h : (forest width ls).Above l m) :
    [l, m].Sublist ls ∧ l.indentation < m.indentation := by
  obtain ⟨j, k, hlt, hsub⟩ := Forest.exists_levels_of_above _ h
  obtain ⟨_, -, hl⟩ := List.mem_map.1 (hsub.subset List.mem_cons_self)
  obtain ⟨_, -, hm⟩ := List.mem_map.1 (hsub.subset (List.mem_cons_of_mem _ List.mem_cons_self))
  obtain ⟨rfl, rfl⟩ := Prod.mk.inj hl
  obtain ⟨rfl, rfl⟩ := Prod.mk.inj hm
  have hlines := hsub.map Prod.snd
  rw [List.map_map, show Prod.snd ∘ (fun l => (l.indentation / width, l)) = @id Line from rfl, List.map_id] at hlines
  exact ⟨hlines, Nat.lt_of_div_lt_div hlt⟩

section
variable {first : Line} {rest : List Line} (hfirst : first.number = 1) (hrest : ∀ m ∈ rest, m.number ≠ 1)
include hfirst hrest

/-- Below the first line of a text stands every line up to the next one that is not indented. -/
theorem above_first (hfits : ∀ m ∈ rest, width ∣ m.indentation) {m : Line} :
    (forest width (first :: rest)).Above first m ↔ m ∈ rest.takeWhile (fun m => 0 < m.leading) := by
  have hne : ∀ x ∈ rest.map (fun l => (l.indentation / width, l)), x.2 ≠ first := by
    intro x hx
    obtain ⟨l, hl, rfl⟩ := List.mem_map.1 hx
    exact fun h => hrest l hl (by rw [show l = first from h, hfirst])
  have hzero : first.indentation / width = 0 := by rw [indentation, if_pos hfirst, Nat.zero_div]
  have hbelow : rest.takeWhile (Forest.isBelow 0 ∘ fun l => (l.indentation / width, l)) =
      rest.takeWhile (fun m => 0 < m.leading) := by
    refine takeWhile_congr fun m hm => decide_eq_decide.2 ?_
    have hd := hfits m hm
    show 0 < m.indentation / width ↔ 0 < m.leading
    rw [indentation_of_ne_one (hrest m hm)] at hd ⊢
    rw [Nat.div_pos_iff]
    constructor
    · omega
    · exact fun hpos => ⟨Nat.pos_of_dvd_of_pos hd hpos, Nat.le_of_dvd hpos hd⟩
  rw [forest, List.map_cons, hzero, Forest.above_ofLevels_head hne, List.takeWhile_map, hbelow, List.map_map]
  simp

end

/-- Whether each line up to the next one that is not indented has more leading blanks than the first line of the text, if
that is one of the lines. -/
def FirstIsShallow (ls : List Line) : Prop :=
  ∀ first ∈ ls.head?, first.number = 1 → ∀ m ∈ ls.tail.takeWhile (fun m => 0 < m.leading), first.leading < m.leading

theorem leading_lt_iff (hrest : ∀ m ∈ ls.tail, m.number ≠ 1) (hfits : ∀ l ∈ ls, width ∣ l.indentation) :
    (∀ l m, (forest width ls).Above l m → l.leading < m.leading) ↔ FirstIsShallow ls := by
  cases ls with
  | nil =>
    refine ⟨fun _ => nofun, fun _ l m had => ?_⟩
    cases (lt_of_above had).1
  | cons first rest =>
    have hfits' : ∀ m ∈ rest, width ∣ m.indentation := fun m hm => hfits m (List.mem_cons_of_mem _ hm)
    constructor
    · intro h _ hfirst hnumber m hm
      obtain rfl := Option.some.inj hfirst
      exact h first m ((above_first hnumber hrest hfits').2 hm)
    · intro h l m had
      obtain ⟨hsub, hlt⟩ := lt_of_above had
      have hm : m ∈ rest := List.singleton_sublist.1 (List.Sublist.of_cons_cons hsub)
      rw [indentation_of_ne_one (hrest m hm)] at hlt
      -- the first line of the text is the only one whose leading blanks say nothing of its indentation
      by_cases hl : l.number = 1
      · have hmem : l ∈ first :: rest := hsub.subset List.mem_cons_self
        obtain rfl : l = first := (List.mem_cons.1 hmem).resolve_right fun hl' => hrest l hl' hl
        exact h l rfl hl m ((above_first hl hrest hfits').1 had)
      · rwa [indentation_of_ne_one hl] at hlt

end Line

/-- **What stands below an entry comes from lines that are indented more than its own**, where the first line of a text
is not indented whatever it begins with.  So it comes from lines that have more leading blanks in just those texts whose
first line, if it has content, has fewer leading blanks than each line up to the next one that has none. -/
theorem deeper_of_parseText {text : String} {unit : Nat} {forest : Forest Entry}
    (h : parseText text unit = .ok forest) :
    let ls := contentLines text.toList
    (∀ a d, forest.Above a d → ∃ l ∈ ls, ∃ m ∈ ls, a = l.entry ∧ d = m.entry ∧ l.indentation < m.indentation) ∧
      ((∀ l ∈ ls, ∀ m ∈ ls, forest.Above l.entry m.entry → l.leading < m.leading) ↔ Line.FirstIsShallow ls) := by
  intro ls
  obtain ⟨-, hfits, rfl⟩ := parseText_eq_ok_iff.1 h
  rw [← Line.map_entry_forest, ← Line.leading_lt_iff (number_of_mem_tail text.toList) hfits]
  refine ⟨fun a d had => ?_, fun h l m had => ?_, fun h l hl m hm had => ?_⟩
  · obtain ⟨l, m, hlm, rfl, rfl⟩ := (Forest.above_map _ _).1 had
    obtain ⟨hsub, hlt⟩ := Line.lt_of_above hlm
    exact ⟨l, hsub.subset (by simp), m, hsub.subset (by simp), rfl, rfl, hlt⟩
  · have hsub := (Line.lt_of_above had).1
    exact h l (hsub.subset (by simp)) m (hsub.subset (by simp)) ((Forest.above_map _ _).2 ⟨l, m, had, rfl, rfl⟩)
  · obtain ⟨x, y, hxy, hx, hy⟩ := (Forest.above_map _ _).1 had
    have hsub := (Line.lt_of_above hxy).1
    rw [eq_of_entry (hsub.subset (by simp)) hl hx, eq_of_entry (hsub.subset (by simp)) hm hy] at hxy
    exact h l m hxy

/-- A first line that is indented less than the two lines below it. -/
theorem deeper_of_parseText_shallow :
    ∃ forest, parseText " a\n  b\n\n    c\nd" 0 = .ok forest ∧
      ∀ l ∈ contentLines " a\n  b\n\n    c\nd".toList, ∀ m ∈ contentLines " a\n  b\n\n    c\nd".toList,
        forest.Above l.entry m.entry → l.leading < m.leading := by
  let text := " a\n  b\n\n    c\nd"
  have hstray : Text.hasStray text.toList = false := by decide +kernel
  have hfits : ∀ l ∈ contentLines text.toList, Line.unitOf 0 (contentLines text.toList) ∣ l.indentation := by
    decide +kernel
  have hok : parseText text 0 = .ok _ := parseText_eq_ok_iff.2 ⟨hstray, hfits, rfl⟩
  have hshallow : Line.FirstIsShallow (contentLines text.toList) := by
    unfold Line.FirstIsShallow
    decide +kernel
  exact ⟨_, hok, (deeper_of_parseText hok).2.2 hshallow⟩

/-- Two lines that are indented alike, where the second one stands below the first one. -/
theorem first_line_not_measured :
    parseText "  a\n  b\n" 0 = .ok (.node ⟨"a", .int 1⟩ (.node ⟨"b", .int 2⟩ .nil .nil) .nil) ∧
      (contentLines "  a\n  b\n".toList).map (fun l => (l.entry, l.leading)) =
        [(⟨"a", .int 1⟩, 2), (⟨"b", .int 2⟩, 2)] := by
  refine ⟨?_, by decide +kernel⟩
  refine parseText_eq_ok_iff.2 ⟨by decide +kernel, by decide +kernel, by decide +kernel⟩

end Outline
end Offside
