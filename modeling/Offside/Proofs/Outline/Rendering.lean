import Offside.Proofs.Outline.Parsing
/-!
# Rendering outlines and parsing them again

A rendered outline has a line for each entry, in the order of the walk, indented by its depth.  Its entries are those it
was rendered from, numbered anew, and they stand as they did: their indentations are in the order of their depths,
whatever the unit they are divided by.  An entry of no text is lost, because its line is blank (`parse_toText_iff`).
-/
namespace Offside
namespace Outline

/-! ## Texts of entries -/

/-- What the text of an entry looks like: it fits in one line, no blank stands in front of it, and no white space behind
it. -/
structure IsEntryText (s : List Char) : Prop where
  inLine : ∀ c ∈ s, Scanner.isLineChar c = true
  head : ∀ c ∈ s.head?, Text.isBlankChar c = false
  stripped : Text.stripRight s = s

theorem stripRight_eq_rdropWhile (s : List Char) : Text.stripRight s = s.rdropWhile Text.isSpace := rfl

theorem isEntryText_entry {l : Line} (hl : l.IsWhole) : IsEntryText l.entry.text.toList := by
  rw [Line.entry_eq hl, String.toList_ofList, stripRight_eq_rdropWhile]
  obtain ⟨more, hmore⟩ := List.rdropWhile_prefix Text.isSpace l.word
  refine ⟨fun c hc => Line.isLineChar_of_mem_word (l := l) ?_, fun c hc => ?_, ?_⟩
  · rw [← hmore]
    exact List.mem_append_left _ hc
  · refine Line.isBlankChar_head_word (l := l) ?_
    obtain ⟨rest, hrest⟩ := List.head?_eq_some_iff.1 hc
    rw [← hmore, hrest]
    rfl
  · rw [stripRight_eq_rdropWhile, List.rdropWhile_idempotent]

theorem Scanned.isWhole {ls : List Line} {ts : List Token} (h : Scanned ls ts) : ∀ l ∈ ls, l.IsWhole := by
  induction h with
  | last hl _ => simpa using hl
  | cons hl _ _ _ ih => exact List.forall_mem_cons.2 ⟨hl, ih⟩

theorem isWhole_of_hasStray {cs : List Char} (h : Text.hasStray cs = false) :
    ∀ l ∈ Line.numbered 1 (cs.splitOn '\n'), l.IsWhole := by
  obtain ⟨ts, failure, -, -, hstray, hshown⟩ := scanFrom_eq _ cs .start rfl rfl
  refine (hshown ?_).isWhole
  rwa [h, Option.isSome_eq_false_iff, Option.isNone_iff_eq_none] at hstray

theorem isEntryText_of_parseText {text : String} {unit : Nat} {forest : Forest Entry}
    (h : parseText text unit = .ok forest) : ∀ e ∈ forest.labels, IsEntryText e.text.toList := by
  obtain ⟨hstray, -, rfl⟩ := parseText_eq_ok_iff.1 h
  intro e he
  rw [Forest.labels_ofLevels, Line.depths, List.map_map, List.mem_map] at he
  obtain ⟨l, hl, rfl⟩ := he
  exact isEntryText_entry (isWhole_of_hasStray hstray l (List.mem_of_mem_filter hl))

/-! ## Rendered lines -/

/-- The line of an entry at a depth. -/
def renderedLine (indent : List Char) (x : Nat × Entry) : List Char :=
  (List.replicate x.1 indent).flatten ++ x.2.text.toList

theorem toList_render (indent : String) (f : Forest Entry) :
    (render indent f).toList = ((f.levels 0).map (renderedLine indent.toList)).flatMap (· ++ ['\n']) := by
  have hwalk : f.walk 0 = _ := Forest.walk_eq_levels f 0
  rw [render, hwalk, String.toList_join, List.map_map, List.flatMap_map, List.flatMap_map]
  refine List.flatMap_congr fun x _ => ?_
  simp [renderedLine, String.toList_join, List.flatMap_def, List.map_replicate]

theorem splitOn_flatMap : ∀ lines : List (List Char), (∀ l ∈ lines, '\n' ∉ l) →
    (lines.flatMap (· ++ ['\n'])).splitOn '\n' = lines ++ [[]]
  | [], _ => List.splitOn_nil _
  | l :: lines, h => by
    rw [List.flatMap_cons, List.append_assoc, List.singleton_append,
      List.splitOn_append_cons_self_of_not_mem (h l List.mem_cons_self),
      splitOn_flatMap lines fun l hl => h l (List.mem_cons_of_mem _ hl)]
    rfl

section
variable {indent : List Char} {x : Nat × Entry} (hindent : ∀ c ∈ indent, Text.isBlankChar c = true)
  (hx : IsEntryText x.2.text.toList)
include hindent

theorem isBlankChar_of_mem_replicate {n : Nat} {c : Char} (hc : c ∈ (List.replicate n indent).flatten) :
    Text.isBlankChar c = true := by
  obtain ⟨s, hs, hc⟩ := List.mem_flatten.1 hc
  rw [List.eq_of_mem_replicate hs] at hc
  exact hindent c hc

include hx

theorem isLineChar_of_mem_renderedLine {c : Char} (hc : c ∈ renderedLine indent x) : Scanner.isLineChar c = true := by
  rcases List.mem_append.1 hc with hc | hc
  · exact Line.isLineChar_of_blank (isBlankChar_of_mem_replicate hindent hc)
  · exact hx.inLine c hc

theorem dropWhile_renderedLine : (renderedLine indent x).dropWhile Text.isBlankChar = x.2.text.toList := by
  rw [renderedLine, dropWhile_append hx.head, List.dropWhile_eq_nil_iff.2, List.nil_append]
  exact fun c hc => isBlankChar_of_mem_replicate hindent hc

theorem leading_renderedLine (number : Nat) : Line.leading ⟨number, renderedLine indent x⟩ = x.1 * indent.length := by
  have hblank : (renderedLine indent x).takeWhile Text.isBlankChar = (List.replicate x.1 indent).flatten := by
    rw [renderedLine, takeWhile_append hx.head]
    exact List.takeWhile_eq_self_iff.2 fun c hc => isBlankChar_of_mem_replicate hindent hc
  rw [Line.leading, hblank]
  simp

theorem entry_renderedLine (number : Nat) :
    Line.entry ⟨number, renderedLine indent x⟩ = ⟨x.2.text, .int number⟩ := by
  rw [Line.entry, dropWhile_renderedLine hindent hx, hx.stripped, String.ofList_toList]

theorem isContent_renderedLine (number : Nat) :
    Line.isContent ⟨number, renderedLine indent x⟩ = true ↔ x.2.text ≠ "" := by
  have hword : Line.word ⟨number, renderedLine indent x⟩ = x.2.text.toList := by
    rw [Line.word, dropWhile_renderedLine hindent hx]
    exact List.takeWhile_eq_self_iff.2 hx.inLine
  have hending : Line.ending ⟨number, renderedLine indent x⟩ = [] := by
    rw [Line.ending, dropWhile_renderedLine hindent hx]
    exact List.dropWhile_eq_nil_iff.2 hx.inLine
  rw [Line.isContent_iff (.inl hending), hword, Ne, String.toList_eq_nil_iff]

end

/-! ## Parsing a rendered outline -/

section
variable {indent : String} {f : Forest Entry} (hindent : Text.isBlank indent.toList = true)
  (hf : ∀ e ∈ f.labels, IsEntryText e.text.toList)
include hindent hf

/-- The lines of a rendered outline: one for each entry, with its number and its depth. -/
def renderedLines (indent : String) (f : Forest Entry) : List Line :=
  Line.numbered 1 ((f.levels 0).map (renderedLine indent.toList))

omit hf in
theorem isBlankChar_of_mem_indent : ∀ c ∈ indent.toList, Text.isBlankChar c = true := by
  simp only [Text.isBlank, Bool.and_eq_true, List.all_eq_true] at hindent
  exact hindent.2

omit hindent in
theorem isEntryText_of_mem_levels {x : Nat × Entry} (hx : x ∈ f.levels 0) : IsEntryText x.2.text.toList :=
  hf x.2 (by rw [← Forest.map_snd_levels f 0]; exact List.mem_map_of_mem hx)

theorem isLineChar_of_mem_lines {l : List Char} (hl : l ∈ (f.levels 0).map (renderedLine indent.toList)) {c : Char}
    (hc : c ∈ l) : Scanner.isLineChar c = true := by
  obtain ⟨x, hx, rfl⟩ := List.mem_map.1 hl
  exact isLineChar_of_mem_renderedLine (isBlankChar_of_mem_indent hindent) (isEntryText_of_mem_levels hf hx) hc

theorem hasStray_render : Text.hasStray (render indent f).toList = false := by
  rw [toList_render]
  refine Text.hasStray_of_not_mem fun hr => ?_
  obtain ⟨l, hl, hr⟩ := List.mem_flatMap.1 hr
  rcases List.mem_append.1 hr with hr | hr
  · cases isLineChar_of_mem_lines hindent hf hl hr
  · cases List.mem_singleton.1 hr

theorem contentLines_render :
    contentLines (render indent f).toList = (renderedLines indent f).filter Line.isContent := by
  have hlines : ∀ l ∈ (f.levels 0).map (renderedLine indent.toList), '\n' ∉ l := by
    intro l hl hn
    cases isLineChar_of_mem_lines hindent hf hl hn
  rw [contentLines, toList_render, splitOn_flatMap _ hlines, Line.numbered, List.zipIdx_append, List.map_append,
    List.filter_append]
  exact List.append_nil _

theorem isContent_of_mem_renderedLines {l : Line} (hl : l ∈ renderedLines indent f) :
    ∃ x ∈ f.levels 0, l = ⟨l.number, renderedLine indent.toList x⟩ ∧ (l.isContent = true ↔ x.2.text ≠ "") := by
  obtain ⟨⟨chars, number⟩, hmem, rfl⟩ := List.mem_map.1 hl
  obtain ⟨x, hx, rfl⟩ := List.mem_map.1 (List.fst_mem_of_mem_zipIdx hmem)
  have htext := isEntryText_of_mem_levels hf hx
  exact ⟨x, hx, rfl, isContent_renderedLine (isBlankChar_of_mem_indent hindent) htext number⟩

theorem length_parse_render_lt {unit : Nat} {g : Forest Entry} (hempty : ∃ e ∈ f.labels, e.text = "")
    (h : parseText (render indent f) unit = .ok g) : g.labels.length < f.labels.length := by
  obtain ⟨-, -, rfl⟩ := parseText_eq_ok_iff.1 h
  have hlength : (renderedLines indent f).length = f.labels.length := by
    rw [renderedLines, Line.numbered, List.length_map, List.length_zipIdx, List.length_map, ← Forest.map_snd_levels f 0,
      List.length_map]
  rw [Forest.labels_ofLevels, List.length_map, Line.depths, List.length_map, contentLines_render hindent hf, ← hlength,
    List.length_filter_lt_length_iff_exists]
  obtain ⟨e, he, htext⟩ := hempty
  rw [← Forest.map_snd_levels f 0] at he
  obtain ⟨x, hx, rfl⟩ := List.mem_map.1 he
  obtain ⟨i, hi⟩ := List.getElem?_of_mem hx
  have hmem : (⟨1 + i, renderedLine indent.toList x⟩ : Line) ∈ renderedLines indent f := by
    refine List.mem_map.2 ⟨(renderedLine indent.toList x, 1 + i), ?_, rfl⟩
    rw [List.mk_add_mem_zipIdx_iff_getElem?, List.getElem?_map, hi]
    rfl
  refine ⟨_, hmem, fun hc => ?_⟩
  exact (isContent_renderedLine (isBlankChar_of_mem_indent hindent) (isEntryText_of_mem_levels hf hx) _).1 hc htext

theorem lines_of_nonempty (hne : ∀ e ∈ f.labels, e.text ≠ "") :
    let ls := contentLines (render indent f).toList
    ls.map Line.indentation = (f.levels 0).map (fun x => x.1 * indent.length) ∧
      ls.map (fun l => (l.indentation, l.entry)) =
        ((f.levels 0).zipIdx 1).map (fun y => (y.1.1 * indent.length, ⟨y.1.2.text, .int y.2⟩)) := by
  intro ls
  have hblank := isBlankChar_of_mem_indent hindent
  have hall : ls = renderedLines indent f := by
    refine (contentLines_render hindent hf).trans (List.filter_eq_self.2 fun l hl => ?_)
    obtain ⟨x, hx, -, hcontent⟩ := isContent_of_mem_renderedLines hindent hf hl
    exact hcontent.2 (hne x.2 (by rw [← Forest.map_snd_levels f 0]; exact List.mem_map_of_mem hx))
  have hlines : ls = ((f.levels 0).zipIdx 1).map (fun y => ⟨y.2, renderedLine indent.toList y.1⟩) := by
    rw [hall, renderedLines, Line.numbered, List.zipIdx_map, List.map_map]
    rfl
  have hreading : ls.map (fun l => (l.indentation, l.entry)) =
      ((f.levels 0).zipIdx 1).map (fun y => (y.1.1 * indent.length, ⟨y.1.2.text, .int y.2⟩)) := by
    rw [hlines, List.map_map]
    refine List.map_congr_left fun y hy => ?_
    obtain ⟨hle, hget⟩ := List.mem_zipIdx_iff_le_and_getElem?_sub.1 hy
    have hx : IsEntryText y.1.2.text.toList := isEntryText_of_mem_levels hf (List.mem_of_getElem? hget)
    have hindentation : Line.indentation ⟨y.2, renderedLine indent.toList y.1⟩ = y.1.1 * indent.length := by
      rw [Line.indentation, leading_renderedLine hblank hx, String.length_toList]
      by_cases h1 : y.2 = 1
      · -- nothing is measured on the first line, but its entry has depth zero anyway
        rw [h1, Nat.sub_self, ← List.head?_eq_getElem?] at hget
        rw [if_pos h1, Forest.head?_levels hget, Nat.zero_mul]
      · rw [if_neg h1]
    exact Prod.ext hindentation (entry_renderedLine hblank hx y.2)
  refine ⟨?_, hreading⟩
  have hfst := congrArg (List.map Prod.fst) hreading
  rw [List.map_map, List.map_map] at hfst
  have hzip : (f.levels 0).map (fun x => x.1 * indent.length) =
      ((f.levels 0).zipIdx 1).map (fun y => y.1.1 * indent.length) := by
    conv_lhs => rw [← List.zipIdx_map_fst 1 (f.levels 0), List.map_map]
    rfl
  rw [hzip]
  exact hfst

omit hf in
/-- The unit divides what indents one level, unless no entry is indented at all; so the depths that come out are in the
same order as those that went in. -/
theorem exists_scale {unit : Nat} (hunit : unit = 0 ∨ unit ∣ indent.length) {ls : List Line}
    (hls : ls.map Line.indentation = (f.levels 0).map (fun x => x.1 * indent.length)) :
    let width := Line.unitOf unit ls
    ∃ scale : Nat → Nat, (∀ l m, scale l < scale m ↔ l < m) ∧
      ∀ x ∈ f.levels 0, width ∣ x.1 * indent.length ∧ x.1 * indent.length / width = scale x.1 := by
  intro width
  have hlength : 0 < indent.length := by
    simp only [Text.isBlank, Bool.and_eq_true, Bool.not_eq_true', List.isEmpty_eq_false_iff] at hindent
    rw [← String.length_toList]
    exact List.length_pos_iff.2 hindent.1
  have hcases : (∀ x ∈ f.levels 0, x.1 = 0) ∨ 0 < width ∧ width ∣ indent.length := by
    by_cases hu : unit = 0
    · have hp : (fun l => decide (0 < l)) ∘ (fun l => l * indent.length) = fun l => decide (0 < l) :=
        funext fun l => decide_eq_decide.2 (Nat.mul_pos_iff_of_pos_right hlength)
      have hfind : (ls.map Line.indentation).find? (0 < ·) =
          (((f.levels 0).map Prod.fst).find? (0 < ·)).map (· * indent.length) := by
        have hmap : (f.levels 0).map (fun x => x.1 * indent.length) =
            ((f.levels 0).map Prod.fst).map (· * indent.length) := by
          rw [List.map_map]
          rfl
        rw [hls, hmap, List.find?_map, hp]
      have hwidth : width = ((ls.map Line.indentation).find? (0 < ·)).getD 0 := if_pos hu
      rcases Forest.find?_levels f with hnone | hone
      · refine .inl fun x hx => ?_
        have := List.find?_eq_none.1 hnone x.1 (List.mem_map_of_mem hx)
        simpa using this
      · have : width = indent.length := by rw [hwidth, hfind, hone]; exact Nat.one_mul _
        exact .inr ⟨this ▸ hlength, this ▸ Nat.dvd_refl _⟩
    · have : width = unit := if_neg hu
      exact .inr ⟨this ▸ Nat.pos_of_ne_zero hu, this ▸ hunit.resolve_left hu⟩
  rcases hcases with hzero | ⟨hpos, hdvd⟩
  · refine ⟨id, fun _ _ => Iff.rfl, fun x hx => ?_⟩
    rw [hzero x hx, Nat.zero_mul, Nat.zero_div]
    exact ⟨Nat.dvd_zero _, rfl⟩
  · have hscale : 0 < indent.length / width := Nat.div_pos (Nat.le_of_dvd hlength hdvd) hpos
    refine ⟨fun l => l * (indent.length / width), fun _ _ => Nat.mul_lt_mul_right hscale, fun x _ => ?_⟩
    exact ⟨Nat.dvd_mul_left_of_dvd hdvd _, Nat.mul_div_assoc _ hdvd⟩

theorem parse_render (hne : ∀ e ∈ f.labels, e.text ≠ "") {unit : Nat} (hunit : unit = 0 ∨ unit ∣ indent.length) :
    ∃ g, parseText (render indent f) unit = .ok g ∧ g.map Entry.text = f.map Entry.text ∧
      g.labels.map Entry.line = (List.range' 1 f.labels.length).map (fun (n : Nat) => .int n) := by
  obtain ⟨hindentations, hreadings⟩ := lines_of_nonempty hindent hf hne
  let ls := contentLines (render indent f).toList
  let width := Line.unitOf unit ls
  obtain ⟨scale, hscale, hlevels⟩ := exists_scale hindent hunit hindentations
  have hfits : ∀ l ∈ ls, width ∣ l.indentation := by
    intro l hl
    have hmem : l.indentation ∈ (f.levels 0).map (fun x => x.1 * indent.length) :=
      hindentations ▸ List.mem_map_of_mem hl
    obtain ⟨x, hx, hxl⟩ := List.mem_map.1 hmem
    exact hxl ▸ (hlevels x hx).1
  have hdepths : Line.depths width ls =
      ((f.levels 0).zipIdx 1).map (fun y => (scale y.1.1, ⟨y.1.2.text, .int y.2⟩)) := by
    have hmap : Line.depths width ls =
        (ls.map (fun l => (l.indentation, l.entry))).map (fun y => (y.1 / width, y.2)) := by
      rw [List.map_map]
      rfl
    rw [hmap, hreadings, List.map_map]
    exact List.map_congr_left fun y hy =>
      Prod.ext (hlevels y.1 (List.fst_mem_of_mem_zipIdx hy)).2 rfl
  have hparse : parseText (render indent f) unit = .ok (Forest.ofLevels (Line.depths width ls)) :=
    parseText_eq_ok_iff.2 ⟨hasStray_render hindent hf, hfits, rfl⟩
  refine ⟨_, hparse, ?_, ?_⟩
  · have hscaled : ((f.levels 0).zipIdx 1).map (fun y => (scale y.1.1, y.1.2.text)) =
        ((f.levels 0).map (fun x => (x.1, x.2.text))).map (fun x => (scale x.1, x.2)) := by
      conv_rhs => rw [← List.zipIdx_map_fst 1 (f.levels 0), List.map_map, List.map_map]
      rfl
    calc (Forest.ofLevels (Line.depths width ls)).map Entry.text
        = Forest.ofLevels (((f.levels 0).zipIdx 1).map (fun y => (scale y.1.1, y.1.2.text))) := by
          rw [Forest.map_ofLevels, hdepths, List.map_map]
          rfl
      _ = Forest.ofLevels ((f.levels 0).map (fun x => (x.1, x.2.text))) := by
          rw [hscaled, Forest.ofLevels_relabel hscale]
      _ = f.map Entry.text := by
          rw [← Forest.map_ofLevels, Forest.ofLevels_levels]
  · have hlength : f.labels.length = (f.levels 0).length := by rw [← Forest.map_snd_levels f 0, List.length_map]
    rw [Forest.labels_ofLevels, hdepths, List.map_map, List.map_map, hlength, ← List.zipIdx_map_snd, List.map_map]
    rfl

end

theorem parseText_of_ofText {text : String} {unit : Datum} {o : Outline} (h : ofText text unit = .ok o) :
    ∃ n, parseText text n = .ok o.entries := by
  obtain ⟨n, -, h⟩ := exists_of_bind h
  obtain ⟨entries, hparse, h⟩ := exists_of_bind h
  cases h
  exact ⟨n, hparse⟩

theorem exists_ofText_of_make {path : Datum} {given : Option String} {unit : Datum} {look : String → Found} {o : Outline}
    (h : make path given unit look = .ok o) : ∃ text, ofText text unit = .ok o := by
  unfold make at h
  split at h
  · exact ⟨_, h⟩
  · cases h
  · obtain ⟨name, -, h⟩ := exists_of_bind h
    obtain ⟨text, -, h⟩ := exists_of_bind h
    exact ⟨text, h⟩

theorem parseText_of_make {path : Datum} {text : Option String} {unit : Datum} {look : String → Found} {o : Outline}
    (h : make path text unit look = .ok o) : ∃ text n, parseText text n = .ok o.entries := by
  obtain ⟨text, h⟩ := exists_ofText_of_make h
  exact ⟨text, parseText_of_ofText h⟩

/-- **A rendered outline is parsed as it was just if none of its entries is without text.**  The entries then have the
same texts and stand as they did, and their line numbers count them.  Otherwise the rendered text is refused, or gives
fewer entries. -/
theorem parse_toText_iff {path : Datum} {text : Option String} {value : Datum} {look : String → Found} {o : Outline}
    (h : make path text value look = .ok o) {indent : String} (hindent : Text.isBlank indent.toList = true)
    {unit : Nat} (hunit : unit = 0 ∨ unit ∣ indent.length) :
    ((∃ g, parseText (o.toText indent) unit = .ok g ∧ g.map Entry.text = o.entries.map Entry.text ∧
        g.labels.map Entry.line = (List.range' 1 o.entries.labels.length).map (fun (n : Nat) => .int n)) ↔
      ∀ e ∈ o.entries.labels, e.text ≠ "") ∧
    ((∃ e ∈ o.entries.labels, e.text = "") → ∀ g, parseText (o.toText indent) unit = .ok g →
      g.labels.length < o.entries.labels.length) := by
  obtain ⟨_, _, hparse⟩ := parseText_of_make h
  have htexts := isEntryText_of_parseText hparse
  have hfewer (hempty : ∃ e ∈ o.entries.labels, e.text = "") (g : Forest Entry)
      (hg : parseText (o.toText indent) unit = .ok g) : g.labels.length < o.entries.labels.length :=
    length_parse_render_lt hindent htexts hempty hg
  refine ⟨⟨?_, fun hne => parse_render hindent htexts hne hunit⟩, hfewer⟩
  rintro ⟨g, hg, hsame, -⟩ e he htext
  have hlength : g.labels.length = o.entries.labels.length := by
    have := congrArg (List.length ∘ Forest.labels) hsame
    simpa [Forest.labels_map] using this
  exact absurd (hfewer ⟨e, he, htext⟩ g hg) (by omega)

/-- Levels that are skipped, indented by two characters for each depth and parsed with a unit of one. -/
theorem parse_toText_skipped :
    ∃ o, make .null (some "a\n  b\n      c\n    d\n") (.int 0) (fun _ => .nothing) = .ok o ∧
      ∃ g, parseText (o.toText "\t ") 1 = .ok g ∧ g.map Entry.text = o.entries.map Entry.text ∧
        g.labels.map Entry.line = [.int 1, .int 2, .int 3, .int 4] := by
  let text := "a\n  b\n      c\n    d\n"
  have hwidth : Line.unitOf 0 (contentLines text.toList) = 2 := by decide +kernel
  have hstray : Text.hasStray text.toList = false := by decide +kernel
  have hfits : ∀ l ∈ contentLines text.toList, 2 ∣ l.indentation := by decide +kernel
  have htexts : ∀ e ∈ (contentLines text.toList).map Line.entry, e.text ≠ "" := by decide +kernel
  obtain ⟨entries, hparse, hlabels⟩ : ∃ entries, parseText text 0 = .ok entries ∧
      entries.labels = (contentLines text.toList).map Line.entry := by
    refine ⟨_, parseText_eq_ok_iff.2 ⟨hstray, hwidth ▸ hfits, rfl⟩, ?_⟩
    rw [Forest.labels_ofLevels, Line.depths, List.map_map]
    rfl
  have hmake : make .null (some text) (.int 0) (fun _ => .nothing) = .ok ⟨text, 0, entries⟩ := by
    show (parseText text 0 >>= fun entries => pure (Outline.mk text 0 entries)) = _
    rw [hparse]
    rfl
  have hindent : Text.isBlank "\t ".toList = true := by decide +kernel
  have hunit : 1 = 0 ∨ 1 ∣ "\t ".length := .inr (Nat.one_dvd _)
  obtain ⟨hiff, -⟩ := parse_toText_iff hmake hindent hunit
  obtain ⟨g, hg, hsame, hlines⟩ := hiff.2 (by rw [hlabels]; exact htexts)
  have hlength : entries.labels.length = 4 := by
    rw [hlabels]
    decide +kernel
  rw [hlength] at hlines
  exact ⟨_, hmake, g, hg, hsame, hlines⟩

end Outline
end Offside
