import Offside.Outline.Document
import Offside.Proofs.Outline.Reading
import Offside.Proofs.Stream.LineByLine
/-!
# Reading a layout of lines

The tokens of a text's lines are a row of windows, with a line in front of them where the text begins with one.  Written
out with its markers, such a row is an outline for the grammar, and what the reader makes of it is the forest of the
lines by their depths (`reads_layout`).
-/
namespace Offside

/-- A window of line breaks, and a line if there is content. -/
structure Window.IsOfLines (w : Window) : Prop where
  newline : w.newline.type = .name "_NL"
  gap : ∀ t ∈ w.gap, t.type = .name "_NL"
  content : ∀ t ∈ w.content, t.type = .name "LINE"

/-- The line in a segment, with the indentation measured in front of it. -/
def Segment.line? (cfg : Config) : Segment → Option (Nat × Token)
  | .token t => some (0, t)
  | .window w => w.content.map (w.length cfg, ·)

/-- The lines in some segments, each with its depth. -/
def depths (cfg : Config) (unit : Nat) (segs : List Segment) : List (Nat × Token) :=
  (segs.filterMap (Segment.line? cfg)).map (fun x => (x.1 / unit, x.2))

namespace Outline

/-- Windows of lines, of which the last may be without content. -/
inductive LineWindows : List Window → Prop where
  | nil : LineWindows []
  | last {w : Window} (hw : w.IsOfLines) (hcontent : w.content = none) : LineWindows [w]
  | cons {w : Window} {ws : List Window} (hw : w.IsOfLines) {t : Token} (hcontent : w.content = some t)
      (h : LineWindows ws) : LineWindows (w :: ws)

/-- The segments of lines: windows, and perhaps a line in front of them. -/
inductive LineSegments : List Segment → Prop where
  | windows {ws : List Window} (h : LineWindows ws) : LineSegments (ws.map .window)
  | line {ws : List Window} {t : Token} (ht : t.type = .name "LINE") (h : LineWindows ws) :
      LineSegments (.token t :: ws.map .window)

variable (unit width : Nat) {opened : List Token} {lines : List (Nat × Token)}

theorem isWhitespace_config {t : Token} (ht : t.type = .name "_NL") : (config unit).isWhitespace t = false := by
  refine isWhitespace_of_newline ((Config.classify_eq_newline _ _).2 ?_)
  rw [ht]
  rfl

theorem blank_of_lines {w : Window} (hw : w.IsOfLines) :
    w.blank (config unit) = w.gap ∧ w.indent (config unit) = [] := by
  have hlast (ts : List Token) (hts : ∀ t ∈ ts, t.type = .name "_NL") :
      ts.rdropWhile (config unit).isWhitespace = ts ∧ ts.rtakeWhile (config unit).isWhitespace = [] := by
    cases ts using List.reverseRecOn with
    | nil => exact ⟨rfl, rfl⟩
    | append_singleton ts t =>
      have ht := isWhitespace_config unit (hts t (by simp))
      rw [List.rdropWhile_concat_neg _ _ _ (by simp [ht]), List.rtakeWhile_concat_neg _ _ _ (by simp [ht])]
      exact ⟨rfl, rfl⟩
  exact hlast w.gap hw.gap

theorem written_of_lines {w : Window} (hw : w.IsOfLines) : w.written (config unit) width opened =
    (w.newline :: w.gap) ++ markersTo kinds width (w.length (config unit) / width) opened w.content ++
      w.content.toList := by
  obtain ⟨hblank, hindent⟩ := blank_of_lines unit hw
  unfold Window.written
  rw [hblank, hindent]
  simp [config]

theorem type_closings (opened : List Token) : ∀ m ∈ opened.map kinds.closing, m.type = .name "_DEDENT" := by
  intro m hm
  obtain ⟨o, -, rfl⟩ := List.mem_map.1 hm
  rfl

namespace Reader

variable {r : Reader}

theorem takes_closings (h : r.Holds opened.length lines) (hready : r.IsReady) :
    ∃ r', r.Takes (opened.map kinds.closing) r' ∧ r'.Holds 0 lines := by
  refine takes_dedents _ (type_closings opened) (by simpa using h) fun hne => ?_
  have hlength : opened.length = opened.length - 1 + 1 := by
    have : opened ≠ [] := fun hn => hne (by rw [hn]; rfl)
    have := List.length_pos_iff.2 this
    omega
  rw [hlength] at h
  exact hready.isEmpty_eq h

theorem takes_markers (h : r.Holds opened.length lines) (hready : r.IsReady) (depth : Nat) (t : Token) :
    ∃ r', r.Takes (markersTo kinds width depth opened (some t)) r' ∧ r'.Holds depth lines := by
  by_cases hd : depth ≤ opened.length
  · have hnone : openingsTo kinds width depth opened (some t) = [] := by
      simp [openingsTo, Nat.sub_eq_zero_of_le hd]
    have hlength : (opened.take (opened.length - depth)).length = opened.length - depth := by simp
    rw [markersTo, hnone, List.append_nil]
    refine takes_dedents _ (type_closings _) ?_ fun hne => ?_
    · rw [List.length_map, hlength, Nat.add_sub_cancel' hd]
      exact h
    · have hpos : opened.length = opened.length - 1 + 1 := by
        have : opened.length ≠ 0 := fun hn => hne (by simp [List.length_eq_zero_iff.1 hn])
        omega
      rw [hpos] at h
      exact hready.isEmpty_eq h
  · have hnone : opened.take (opened.length - depth) = [] := by
      rw [Nat.sub_eq_zero_of_le (by omega), List.take_zero]
    have htypes : ∀ m ∈ openingsTo kinds width depth opened (some t), m.type = .name "_INDENT" := by
      intro m hm
      obtain ⟨i, -, rfl⟩ := List.mem_map.1 hm
      rfl
    obtain ⟨r', htakes, hh⟩ := takes_indents _ htypes h hready.isOpen
    refine ⟨r', by rwa [markersTo, hnone, List.map_nil, List.nil_append], ?_⟩
    have hlength : opened.length + (openingsTo kinds width depth opened (some t)).length = depth := by
      simp [openingsTo]
      omega
    rwa [hlength] at hh

theorem takes_window {w : Window} {t : Token} (hw : w.IsOfLines) (hcontent : w.content = some t)
    (h : r.Holds opened.length lines) (hready : r.IsReady) :
    let depth := w.length (config unit) / width
    ∃ r', r.Takes (w.written (config unit) width opened) r' ∧ r'.Holds depth (lines ++ [(depth, t)]) ∧ r'.IsReady := by
  intro depth
  obtain ⟨s, hs, hholds⟩ := takes_markers width h hready depth t
  obtain ⟨r', hr', hlines, hready'⟩ := step_line hholds (hw.content t hcontent)
  refine ⟨r', ?_, hlines, hready'⟩
  have hbreaks := takes_newlines hready (w.newline :: w.gap) (List.forall_mem_cons.2 ⟨hw.newline, hw.gap⟩)
  rw [written_of_lines unit width hw, hcontent]
  exact (hbreaks.append hs).append (takes_cons hr' (takes_nil r'))

theorem takes_window_of_end {w : Window} (hw : w.IsOfLines) (hcontent : w.content = none)
    (h : r.Holds opened.length lines) (hready : r.IsReady) :
    ∃ r', r.Takes (w.written (config unit) width opened) r' ∧ r'.Holds 0 lines := by
  obtain ⟨r', hr', hholds⟩ := takes_closings h hready
  refine ⟨r', ?_, hholds⟩
  have hlength : w.length (config unit) = 0 := by simp [Window.length, hcontent]
  have hbreaks := takes_newlines hready (w.newline :: w.gap) (List.forall_mem_cons.2 ⟨hw.newline, hw.gap⟩)
  rw [written_of_lines unit width hw, hlength, Nat.zero_div, markersTo_zero, hcontent]
  exact (hbreaks.append hr').append (takes_nil r')

theorem takes_windows {ws : List Window} (hws : LineWindows ws) : ∀ {r : Reader} {opened : List Token}
    {lines : List (Nat × Token)}, r.Holds opened.length lines → r.IsReady →
    ∃ r', r.Takes (writtenAll (config unit) width opened (ws.map .window) ++
        (openedBehindAll (config unit) width opened (ws.map .window)).map kinds.closing) r' ∧
      r'.Holds 0 (lines ++ depths (config unit) width (ws.map .window)) := by
  induction hws with
  | nil =>
    intro r opened lines h hready
    rw [List.map_nil, depths, List.filterMap_nil, List.map_nil, List.append_nil]
    exact takes_closings h hready
  | @last w hw hcontent =>
    intro r opened lines h hready
    have hlength : w.length (config unit) = 0 := by simp [Window.length, hcontent]
    have hopened : w.openedBehind (config unit) width opened = [] := by
      rw [Window.openedBehind, hlength, Nat.zero_div, openedAt_zero]
    obtain ⟨r', htakes, hholds⟩ := takes_window_of_end unit width hw hcontent h hready
    refine ⟨r', ?_, ?_⟩
    · simpa [writtenAll, openedBehindAll, Segment.written, Segment.openedBehind, hopened] using htakes
    · simpa [depths, Segment.line?, hcontent] using hholds
  | @cons w ws hw t hcontent _ ih =>
    intro r opened lines h hready
    obtain ⟨s, hs, hholds, hready'⟩ := takes_window unit width hw hcontent h hready
    have hlength : (w.openedBehind (config unit) width opened).length = w.length (config unit) / width := by
      rw [Window.openedBehind, hcontent, length_openedAt_some]
    rw [← hlength] at hholds
    obtain ⟨r', htakes, hholds'⟩ := ih hholds hready'
    refine ⟨r', ?_, ?_⟩
    · rw [List.map_cons, writtenAll, List.append_assoc]
      exact hs.append htakes
    · rw [hlength, List.append_assoc] at hholds'
      simpa [depths, Segment.line?, hcontent] using hholds'

end Reader

/-- **The layout of lines is an outline, and is read as the forest of the lines by their depths.** -/
theorem reads_layout {segs : List Segment} (h : LineSegments segs) (unit width : Nat) :
    ∃ r, Reader.start.Takes (writtenAll (config unit) width [] segs ++
        (openedBehindAll (config unit) width [] segs).map kinds.closing) r ∧
      r.finish? = some (Forest.ofLevels (depths (config unit) width segs)) := by
  cases h with
  | windows hws =>
    have hstart : Reader.start.Holds ([] : List Token).length [] := Reader.holds_start
    obtain ⟨r, htakes, hholds⟩ := Reader.takes_windows unit width hws hstart (.inr rfl)
    exact ⟨r, htakes, Reader.finish?_eq hholds⟩
  | @line ws t ht hws =>
    obtain ⟨s, hs, hlines, hready⟩ := Reader.step_line Reader.holds_start ht
    have hlines : s.Holds ([] : List Token).length ([] ++ [(0, t)]) := hlines
    obtain ⟨r, htakes, hholds⟩ := Reader.takes_windows unit width hws hlines hready
    refine ⟨r, Reader.takes_cons hs htakes, ?_⟩
    rw [Reader.finish?_eq hholds]
    simp [depths, Segment.line?]

end Outline
end Offside
