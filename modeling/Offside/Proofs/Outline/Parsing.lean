import Offside.Proofs.Outline.Segments
/-!
# Parsing outlines

The entries of a text are the forest of its lines with content by their depths, where a depth is the quotient of an
indentation by the unit.  A text is refused for a stray carriage return, or for an indentation that the unit does not
divide, and for nothing else (`parseText_eq_ok_iff`).  So an entry stands below the nearest line in front of it that is
less deep (`nearest_of_parseText`), whatever levels are skipped between the two.
-/
namespace Offside
namespace Outline

/-- The unit of some lines: the one that is set, or else the first indentation other than zero, zero where there is
none. -/
def Line.unitOf (unit : Nat) (ls : List Line) : Nat :=
  if unit = 0 then ((ls.map Line.indentation).find? (0 < ·)).getD 0 else unit

/-- The entries of lines with their depths. -/
def Line.depths (unit : Nat) (ls : List Line) : List (Nat × Entry) :=
  ls.map (fun l => (l.indentation / unit, l.entry))

theorem find?_lengths (cfg : Config) : ∀ segs : List Segment,
    (segs.map (Segment.length cfg)).find? (0 < ·) = ((readings cfg segs).map Prod.fst).find? (0 < ·)
  | [] => rfl
  | .token t :: segs => by
    have ih := find?_lengths cfg segs
    simpa [readings, Segment.length, Segment.line?] using ih
  | .window w :: segs => by
    have ih := find?_lengths cfg segs
    cases hc : w.content with
    | none =>
      have hlength : w.length cfg = 0 := by simp [Window.length, hc]
      simpa [readings, Segment.length, Segment.line?, hc, hlength] using ih
    | some t =>
      simp only [readings, Segment.line?, hc, List.map_cons, List.find?_cons, Segment.length, List.filterMap_cons,
        Option.map_some]
      split
      · rfl
      · exact ih

theorem misfit?_eq_none_iff (cfg : Config) (width : Nat) (segs : List Segment) :
    misfit? cfg width segs = none ↔ ∀ x ∈ readings cfg segs, width ∣ x.1 := by
  rw [← not_iff_not, ← Ne, misfit?_ne_none_iff]
  push Not
  constructor
  · rintro ⟨w, hw, hd⟩
    cases hc : w.content with
    | none => exact absurd (by simp [Window.length, hc] : width ∣ w.length cfg) hd
    | some t =>
      exact ⟨_, List.mem_map.2 ⟨(w.length cfg, t), List.mem_filterMap.2 ⟨_, hw, by simp [Segment.line?, hc]⟩, rfl⟩, hd⟩
  · rintro ⟨x, hx, hd⟩
    obtain ⟨y, hy, rfl⟩ := List.mem_map.1 hx
    obtain ⟨seg, hseg, hline⟩ := List.mem_filterMap.1 hy
    cases seg with
    | token t =>
      cases hline
      exact absurd (Nat.dvd_zero width) hd
    | window w =>
      obtain ⟨t, -, rfl⟩ := Option.map_eq_some_iff.1 hline
      exact ⟨w, hseg, hd⟩

theorem read_fault (tokens : List Token) (f : Fault) (forest : Forest Token) : read tokens (some f) ≠ .ok forest := by
  unfold read
  split
  · nofun
  · nofun
  · nofun
  · rename_i h
    cases h

theorem read_of_takes {tokens : List Token} {r : Reader} {forest : Forest Token} (h : Reader.start.Takes tokens r)
    (hf : r.finish? = some forest) : read tokens none = .ok forest := by
  simp only [read, h 0, hf]

theorem map_read_fault (tokens : List Token) (f : Fault) (forest : Forest Entry) :
    (read tokens (some f)).map (Forest.map Entry.ofToken) ≠ .ok forest := by
  intro h
  cases hr : read tokens (some f) with
  | error e => rw [hr] at h; cases h
  | ok x => exact read_fault tokens f x hr

/-- Where every indentation fits, the tokens of a text's lines are read as the forest of the lines, and nowhere else. -/
theorem read_layout_eq_ok_iff {segs : List Segment} (h : LineSegments segs) (unit : Nat) (forest : Forest Entry) :
    let width := Offside.unitOf (config unit) unit segs
    let l := layout (config unit) none unit [] segs
    (read l.tokens l.fault).map (Forest.map Entry.ofToken) = .ok forest ↔
      (∀ x ∈ readings (config unit) segs, width ∣ x.1) ∧
        forest = Forest.ofLevels ((readings (config unit) segs).map (fun x => (x.1 / width, x.2))) := by
  intro width l
  obtain ⟨htokens, hfault⟩ := layout_eq (config unit) segs unit []
  rw [← misfit?_eq_none_iff]
  cases hm : misfit? (config unit) width segs with
  | some w =>
    have hf : l.fault = some (.indent (w.refusal (config unit) width)) := by rw [hfault, hm]; rfl
    rw [hf]
    exact ⟨fun h => absurd h (map_read_fault _ _ _), nofun⟩
  | none =>
    have hgood : segs.takeWhile (Segment.fits (config unit) width) = segs := by
      refine List.takeWhile_eq_self_iff.2 fun seg hseg => ?_
      cases seg with
      | token t => simp [Segment.fits, Segment.length]
      | window w =>
        have := List.find?_eq_none.1 hm w (List.mem_filterMap.2 ⟨_, hseg, rfl⟩)
        simpa [Segment.fits, Segment.length] using this
    obtain ⟨r, htakes, hfinish⟩ := reads_layout h unit width
    have ht : l.tokens = _ := htokens
    have hf : l.fault = none := by rw [hfault, hm]; rfl
    rw [hgood, hm, if_pos rfl] at ht
    have hread : read l.tokens l.fault = .ok (Forest.ofLevels (depths (config unit) width segs)) := by
      rw [hf, ht]
      exact read_of_takes htakes hfinish
    have hentries : (Forest.ofLevels (depths (config unit) width segs)).map Entry.ofToken =
        Forest.ofLevels ((readings (config unit) segs).map (fun x => (x.1 / width, x.2))) := by
      rw [Forest.map_ofLevels, depths, readings, List.map_map, List.map_map]
      rfl
    rw [hread, ← hentries]
    exact ⟨fun h => ⟨rfl, (Except.ok.inj h).symm⟩, fun h => h.2 ▸ rfl⟩

/-- **The entries of a text are the forest of its lines with content by their depths**, and a text has entries unless it
holds a stray carriage return or an indentation that the unit does not divide. -/
theorem parseText_eq_ok_iff {text : String} {unit : Nat} {forest : Forest Entry} :
    let ls := contentLines text.toList
    let width := Line.unitOf unit ls
    parseText text unit = .ok forest ↔
      Text.hasStray text.toList = false ∧ (∀ l ∈ ls, width ∣ l.indentation) ∧
        forest = Forest.ofLevels (Line.depths width ls) := by
  intro ls width
  obtain ⟨ts, failure, hscan, hscanned, hstray, hshown⟩ := scanFrom_eq _ text.toList .start rfl rfl
  obtain ⟨htokens, hfault, -⟩ := Stream.gives_layout (config unit) failure ts hscanned unit []
  have hparse : parseText text unit = (read (layout (config unit) failure unit [] (segments (config unit) ts)).tokens
      (layout (config unit) failure unit [] (segments (config unit) ts)).fault).map (Forest.map Entry.ofToken) := by
    rw [parseText, parseLines, parseDrained, drainText, Scanner.scan, hscan, ← htokens, ← hfault]
    rfl
  rw [hparse, ← hstray]
  cases failure with
  | some f =>
    have hne := fault_layout_ne_none (config unit) f (segments (config unit) ts) unit []
    obtain ⟨g, hg⟩ := Option.ne_none_iff_exists'.1 hne
    rw [hg]
    exact ⟨fun h => absurd h (map_read_fault _ _ _), nofun⟩
  | none =>
    obtain ⟨first, lines, hlines⟩ := List.exists_cons_of_ne_nil (List.splitOn_ne_nil '\n' text.toList)
    have hnumbered : Line.numbered 1 (text.toList.splitOn '\n') = ⟨1, first⟩ :: Line.numbered 2 lines := by
      rw [hlines]
      rfl
    have hs := hshown rfl
    rw [show Cursor.start.line = 1 from rfl, hnumbered] at hs
    obtain ⟨hsegs, hreadings⟩ := segments_of_scanned unit hs rfl fun l hl => by
      have := Line.le_number_of_mem l hl
      omega
    -- what the segments say is what the lines do: their unit and their depths are the same
    replace hreadings : readings (config unit) (segments (config unit) ts) =
        ls.map (fun l => (l.indentation, l.entry)) := by
      rw [hreadings, ← hnumbered]
      rfl
    have hwidth : Offside.unitOf (config unit) unit (segments (config unit) ts) = width := by
      rw [Offside.unitOf, find?_lengths, hreadings, List.map_map]
      rfl
    have hread := read_layout_eq_ok_iff hsegs unit forest
    dsimp only at hread
    rw [hwidth, hreadings, List.forall_mem_map, List.map_map] at hread
    rw [hread]
    exact ⟨fun h => ⟨rfl, h⟩, fun h => h.2⟩

/-- **Every line with content is one entry, and stands below the nearest line in front of it that is less deep.**  The
walk visits the lines in the order of the text; the first line of the text has depth zero, and every other one its
leading blanks divided by the unit. -/
theorem nearest_of_parseText {text : String} {unit : Nat} {forest : Forest Entry}
    (h : parseText text unit = .ok forest) :
    let ls := contentLines text.toList
    let width := Line.unitOf unit ls
    let level (i : Nat) := (ls.map (fun l => l.indentation / width)).getD i 0
    (∀ l ∈ ls, width ∣ l.indentation) ∧ (forest.walk 0).map Prod.snd = ls.map Line.entry ∧
      forest.parents.length = ls.length ∧
      ∀ i < ls.length, ∃ p, forest.parents[i]? = some p ∧ Forest.IsLastLess level (level i) i p := by
  intro ls width level
  obtain ⟨-, hfits, rfl⟩ := parseText_eq_ok_iff.1 h
  have hlevels : (Line.depths width ls).map Prod.fst = ls.map (fun l => l.indentation / width) := by
    rw [Line.depths, List.map_map]
    rfl
  have hlabels : (Forest.ofLevels (Line.depths width ls)).labels = ls.map Line.entry := by
    rw [Forest.labels_ofLevels, Line.depths, List.map_map]
    rfl
  refine ⟨hfits, (Forest.map_snd_walk _ _).trans hlabels, ?_, fun i hi => ?_⟩
  · rw [Forest.parents, Forest.length_parentsFrom, hlabels, List.length_map]
  · have hparent := Forest.parent_ofLevels (Line.depths width ls) (i := i) (by simpa [Line.depths] using hi)
    rw [hlevels] at hparent
    exact hparent

/-- Levels that are skipped, and one met later that none was at before. -/
theorem nearest_of_parseText_skipped :
    ∃ forest, parseText "a\n    b\n            c\n\n        d\r\n" 0 = .ok forest ∧
      (forest.walk 0).map Prod.snd = [⟨"a", .int 1⟩, ⟨"b", .int 2⟩, ⟨"c", .int 3⟩, ⟨"d", .int 5⟩] ∧
      ∃ p, forest.parents[3]? = some p ∧ Forest.IsLastLess (fun i => [0, 1, 3, 2].getD i 0) 2 3 p := by
  let text := "a\n    b\n            c\n\n        d\r\n"
  have hwidth : Line.unitOf 0 (contentLines text.toList) = 4 := by decide +kernel
  have hstray : Text.hasStray text.toList = false := by decide +kernel
  have hfits : ∀ l ∈ contentLines text.toList, 4 ∣ l.indentation := by decide +kernel
  have hlevels : (contentLines text.toList).map (fun l => l.indentation / 4) = [0, 1, 3, 2] := by decide +kernel
  have hentries : (contentLines text.toList).map Line.entry =
      [⟨"a", .int 1⟩, ⟨"b", .int 2⟩, ⟨"c", .int 3⟩, ⟨"d", .int 5⟩] := by decide +kernel
  obtain ⟨forest, hok⟩ : ∃ forest, parseText text 0 = .ok forest :=
    ⟨_, parseText_eq_ok_iff.2 ⟨hstray, hwidth ▸ hfits, rfl⟩⟩
  obtain ⟨-, hwalk, -, hparents⟩ := nearest_of_parseText hok
  have hparent := hparents 3 (by decide +kernel)
  rw [hwidth, hlevels] at hparent
  exact ⟨forest, hok, hwalk.trans hentries, hparent⟩

end Outline
end Offside
