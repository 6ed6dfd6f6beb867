import Offside.Proofs.Outline.Layout
import Offside.Proofs.Outline.Lines
/-!
# The segments of scanned lines

The tokens of a text's lines fall into windows, one for each line with content and the blank lines in front of it; only
a line that the text begins with stands in front of them all.  The indentation that a window measures is the number of
blanks that its line begins with (`segments_of_scanned`).
-/
namespace Offside
namespace Outline

variable (unit : Nat)

theorem classify_break {t : Token} (h : IsBreakToken t) : (config unit).classify t = .newline := by
  rw [Config.classify_eq_newline, h.type]
  rfl

theorem classify_line {l : Line} {t : Token} (h : IsLineToken l t) (hw : l.word ≠ []) :
    (config unit).classify t = .other := by
  obtain ⟨c, rest, hc⟩ := List.exists_cons_of_ne_nil hw
  have hblank : Text.isBlank t.value.toList = false := by
    rw [h.value, hc, Text.isBlank, List.all_cons, Line.isBlankChar_head_word (l := l) (c := c) (by rw [hc]; rfl)]
    simp
  have hkey : t.type.key ≠ (config unit).kinds.newline.key := by
    rw [h.type]
    show TokenType.Key.name "LINE" ≠ .name "_NL"
    decide
  rw [Config.classify, if_neg hkey, hblank]
  rfl

theorem columnsBefore_line {l : Line} {t : Token} (h : IsLineToken l t) : t.columnsBefore = l.leading := by
  rw [Token.columnsBefore, h.column]
  simp

theorem entry_ofToken {l : Line} {t : Token} (h : IsLineToken l t) (hl : l.IsWhole) : Entry.ofToken t = l.entry := by
  rw [Line.entry_eq hl, Entry.ofToken, h.value, h.line]

theorem length_of_break {newline : Token} (hn : IsBreakToken newline) {l : Line} {t : Token} (h : IsLineToken l t) :
    (Window.mk newline [] (some t)).length (config unit) = l.leading := by
  have hnone : ∀ u ∈ ([] : List Token), (config unit).classify u = .whitespace := by simp
  obtain ⟨-, hindent, hlast⟩ := Window.of_whitespace newline hnone (some t)
  rw [Window.length, hindent, hlast, hn.carried]
  exact columnsBefore_line h

theorem length_cons_break (newline : Token) {next : Token} (hn : IsBreakToken next) (gap : List Token)
    (content : Option Token) :
    (Window.mk newline (next :: gap) content).length (config unit) =
      (Window.mk next gap content).length (config unit) := by
  obtain ⟨-, hindent, hlast⟩ := Window.cons_blank newline [] (classify_break unit hn) gap content
  rw [List.nil_append] at hindent hlast
  rw [Window.length, Window.length, hindent, hlast]

/-- What the lines in some segments say: their indentations and entries. -/
def readings (cfg : Config) (segs : List Segment) : List (Nat × Entry) :=
  (segs.filterMap (Segment.line? cfg)).map (fun x => (x.1, Entry.ofToken x.2))

/-- The indentations and entries of lines with content. -/
def Line.readings (ls : List Line) : List (Nat × Entry) :=
  (ls.filter Line.isContent).map (fun l => (l.indentation, l.entry))

theorem Line.readings_of_word {l : Line} (hl : l.IsWhole) (hw : l.word ≠ []) (ls : List Line) :
    Line.readings (l :: ls) = (l.indentation, l.entry) :: Line.readings ls := by
  rw [Line.readings, List.filter_cons_of_pos ((Line.isContent_iff hl).2 hw)]
  rfl

theorem Line.readings_of_blank {l : Line} (hl : l.IsWhole) (hw : l.word = []) (ls : List Line) :
    Line.readings (l :: ls) = Line.readings ls := by
  rw [Line.readings, List.filter_cons_of_neg (fun h => (Line.isContent_iff hl).1 h hw)]
  rfl

/-- Tokens that fall into windows of lines, and say what some lines do. -/
def FallIntoWindows (unit : Nat) (ts : List Token) (ls : List Line) : Prop :=
  ∃ ws, segments (config unit) ts = ws.map .window ∧ LineWindows ws ∧
    readings (config unit) (ws.map .window) = Line.readings ls

section
variable {unit : Nat} {ls : List Line} {l : Line} {us : List Token} {newline : Token}

theorem fallIntoWindows_end (hn : IsBreakToken newline) (hl : l.IsWhole) (hw : l.word = []) :
    FallIntoWindows unit [newline] [l] := by
  refine ⟨[⟨newline, [], none⟩], ?_, .last ⟨hn.type, by simp, by simp⟩ rfl, (Line.readings_of_blank hl hw []).symm⟩
  rw [segments_of_newline (classify_break unit hn)]
  simp [segments]

theorem fallIntoWindows_line (hn : IsBreakToken newline) (hl : l.IsWhole) (hw : l.word ≠ []) {t : Token}
    (ht : IsLineToken l t) (hnumber : l.number ≠ 1) (h : FallIntoWindows unit us ls) :
    FallIntoWindows unit (newline :: t :: us) (l :: ls) := by
  obtain ⟨ws, hsegs, hws, hreadings⟩ := h
  have hgap : ¬ (config unit).isGap t = true := by simp [Config.isGap, classify_line unit ht hw]
  refine ⟨⟨newline, [], some t⟩ :: ws, ?_, .cons ⟨hn.type, by simp, by simpa using ht.type⟩ rfl hws, ?_⟩
  · rw [segments_of_newline (classify_break unit hn), List.takeWhile_cons_of_neg hgap, List.dropWhile_cons_of_neg hgap,
      List.tail_cons, hsegs]
    rfl
  · rw [Line.readings_of_word hl hw, ← hreadings, Line.indentation, if_neg hnumber, ← entry_ofToken ht hl,
      ← length_of_break unit hn ht]
    rfl

/-- A blank line goes to the window of the next line. -/
theorem fallIntoWindows_blank (hn : IsBreakToken newline) (hl : l.IsWhole) (hw : l.word = []) {next : Token}
    (hnext : IsBreakToken next) (h : FallIntoWindows unit (next :: us) ls) :
    FallIntoWindows unit (newline :: next :: us) (l :: ls) := by
  obtain ⟨ws, hsegs, hws, hreadings⟩ := h
  have hgap : (config unit).isGap next = true := by simp [Config.isGap, classify_break unit hnext]
  rw [segments_of_newline (classify_break unit hnext)] at hsegs
  cases ws with
  | nil => cases hsegs
  | cons w ws =>
    obtain ⟨hw', hrest⟩ := List.cons.inj hsegs
    obtain rfl := Segment.window.inj hw'
    let gap := us.takeWhile (config unit).isGap
    let content := (us.dropWhile (config unit).isGap).head?
    refine ⟨⟨newline, next :: gap, content⟩ :: ws, ?_, ?_, ?_⟩
    · rw [segments_of_newline (classify_break unit hn), List.takeWhile_cons_of_pos hgap,
        List.dropWhile_cons_of_pos hgap, hrest]
      rfl
    · cases hws with
      | last h hcontent => exact .last ⟨hn.type, List.forall_mem_cons.2 ⟨h.newline, h.gap⟩, h.content⟩ hcontent
      | cons h hcontent hws => exact .cons ⟨hn.type, List.forall_mem_cons.2 ⟨h.newline, h.gap⟩, h.content⟩ hcontent hws
    · have hlength := length_cons_break unit newline hnext gap content
      rw [Line.readings_of_blank hl hw, ← hreadings, readings, readings, List.map_cons, List.map_cons,
        List.filterMap_cons, List.filterMap_cons, Segment.line?, Segment.line?, hlength]

end

theorem fallIntoWindows_of_scanned {ls : List Line} {ts : List Token} (h : Scanned ls ts) :
    (∀ l ∈ ls, l.number ≠ 1) → ∀ newline, IsBreakToken newline → FallIntoWindows unit (newline :: ts) ls := by
  have hnil : FallIntoWindows unit [] [] := ⟨[], by rw [segments]; rfl, .nil, rfl⟩
  induction h with
  | @last l ts hl hts =>
    intro hnumber newline hn
    cases hts with
    | nil hw => exact fallIntoWindows_end hn hl hw
    | one hw ht => exact fallIntoWindows_line hn hl hw ht (hnumber l List.mem_cons_self) hnil
  | @cons l ls ts us next hl hts hnext _ ih =>
    intro hnumber newline hn
    have hrest := ih (fun l hl => hnumber l (List.mem_cons_of_mem _ hl)) next hnext
    cases hts with
    | nil hw => exact fallIntoWindows_blank hn hl hw hnext hrest
    | one hw ht => exact fallIntoWindows_line hn hl hw ht (hnumber l List.mem_cons_self) hrest

theorem segments_line {l : Line} {t : Token} (hl : l.IsWhole) (hw : l.word ≠ []) (ht : IsLineToken l t)
    (hnumber : l.number = 1) {us : List Token} {ls : List Line} (hus : FallIntoWindows unit us ls) :
    LineSegments (segments (config unit) (t :: us)) ∧
      readings (config unit) (segments (config unit) (t :: us)) = Line.readings (l :: ls) := by
  obtain ⟨ws, hsegs, hws, hreadings⟩ := hus
  have hclass : (config unit).classify t ≠ .newline := by rw [classify_line unit ht hw]; nofun
  rw [segments_of_not_newline hclass, hsegs, Line.readings_of_word hl hw, ← hreadings, ← entry_ofToken ht hl,
    Line.indentation, if_pos hnumber]
  exact ⟨.line ht.type hws, rfl⟩

/-- The tokens of lines fall into segments of lines, and say what the lines do. -/
theorem segments_of_scanned {l : Line} {ls : List Line} {ts : List Token} (h : Scanned (l :: ls) ts)
    (hnumber : l.number = 1) (hrest : ∀ l ∈ ls, l.number ≠ 1) :
    LineSegments (segments (config unit) ts) ∧
      readings (config unit) (segments (config unit) ts) = Line.readings (l :: ls) := by
  have hnil : FallIntoWindows unit [] [] := ⟨[], by rw [segments]; rfl, .nil, rfl⟩
  have hwindows {us : List Token} (hw : l.word = []) (hl : l.IsWhole) {ls : List Line}
      (hus : FallIntoWindows unit us ls) : LineSegments (segments (config unit) us) ∧
        readings (config unit) (segments (config unit) us) = Line.readings (l :: ls) := by
    obtain ⟨ws, hsegs, hws, hreadings⟩ := hus
    rw [hsegs, Line.readings_of_blank hl hw]
    exact ⟨.windows hws, hreadings⟩
  cases h with
  | last hl hts =>
    cases hts with
    | nil hw => exact hwindows hw hl hnil
    | one hw ht => exact segments_line unit hl hw ht hnumber hnil
  | @cons _ _ ts us newline hl hts hn hs =>
    have hus := fallIntoWindows_of_scanned unit hs hrest newline hn
    cases hts with
    | nil hw => exact hwindows hw hl hus
    | one hw ht => exact segments_line unit hl hw ht hnumber hus

end Outline
end Offside
