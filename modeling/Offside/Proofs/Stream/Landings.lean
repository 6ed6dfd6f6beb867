import Mathlib.Data.List.Forall2
import Offside.Proofs.Stream.Layout
/-!
# Where lines land

All that a window says to the levels is where its line lands: its indentation, and the token that its markers stand in
front of.  So the markers of a layout, and the fault that ends it, are those of its landings (`marks_layout`), and
streams over different tokens have the same markers where their lines land alike (`marks_alike`).
-/
namespace Offside

/-- Where a window's line lands; a line without content lands at the end. -/
structure Landing where
  length : Nat
  content : Option Token

def Segment.landing? (cfg : Config) : Segment → Option Landing
  | .token _ => none
  | .window w => some ⟨w.length cfg, w.content⟩

def landings (cfg : Config) (segs : List Segment) : List Landing :=
  segs.filterMap (Segment.landing? cfg)

/-- The error of a landing whose indentation the unit does not divide. -/
def Landing.refusal (l : Landing) (unit : Nat) : IndentError :=
  ⟨.int l.length, .int unit, l.content.elim .null (·.start.line), l.content.elim .null (·.start.column)⟩

/-- Some markers, and the fault that they end with, if they do. -/
structure Marks where
  markers : List Token
  fault : Option Fault

def Marks.behind (ms : List Token) (m : Marks) : Marks :=
  { m with markers := ms ++ m.markers }

/-- The markers of some landings, with a unit so far and some levels open. -/
def marks (kinds : Kinds) (failure : Option Fault) (unit : Nat) (opened : List Token) : List Landing → Marks
  | [] => ⟨if failure = none then opened.map kinds.closing else [], failure⟩
  | l :: ls =>
    if l.content ≠ none ∨ failure = none then
      let fixed := fixedBy unit l.length
      let depth := l.length / fixed
      if l.length % fixed = 0 then
        (marks kinds failure fixed (openedAt kinds fixed depth opened l.content) ls).behind
          (markersTo kinds fixed depth opened l.content)
      else ⟨[], some (.indent (l.refusal fixed))⟩
    else ⟨[], failure⟩

/-! ## The markers of a layout -/

theorem isMarker_markersTo (kinds : Kinds) (unit depth : Nat) {opened : List Token} (content : Option Token)
    (h : ∀ m ∈ opened, m.isMarker = true) : ∀ m ∈ markersTo kinds unit depth opened content, m.isMarker = true := by
  refine forall_markersTo kinds unit depth opened content (fun o ho => ?_) fun t ht level => rfl
  exact h o ho

theorem isMarker_openedAt (kinds : Kinds) (unit depth : Nat) {opened : List Token} (content : Option Token)
    (h : ∀ m ∈ opened, m.isMarker = true) : ∀ m ∈ openedAt kinds unit depth opened content, m.isMarker = true :=
  forall_openedAt kinds unit depth content h fun _ _ _ => rfl

/-- What a window is written out with beside its own tokens are the markers to its depth. -/
theorem markers_written {cfg : Config} {w : Window} (hw : ∀ t ∈ w.tokens, t.isMarker = false) (unit : Nat)
    {opened : List Token} (hopened : ∀ m ∈ opened, m.isMarker = true) :
    (w.written cfg unit opened).filter Token.isMarker =
      markersTo cfg.kinds unit (w.length cfg / unit) opened w.content := by
  have hnone {ts : List Token} (hts : ∀ t ∈ ts, t ∈ w.tokens) : ts.filter Token.isMarker = [] :=
    List.filter_eq_nil_iff.2 fun t ht => by simp [hw t (hts t ht)]
  have hsplit : w.gap = w.blank cfg ++ w.indent cfg := (List.rdropWhile_append_rtakeWhile ..).symm
  have hnewline : w.newline.isMarker = false := hw w.newline List.mem_cons_self
  have hblank : (w.blank cfg).filter Token.isMarker = [] := hnone fun t ht => by simp [Window.tokens, hsplit, ht]
  have hbreaks : ((w.blank cfg).filter (fun t => !cfg.isWhitespace t)).filter Token.isMarker = [] :=
    hnone fun t ht => by simp [Window.tokens, hsplit, (List.mem_filter.1 ht).1]
  have hindent : (w.indent cfg).filter Token.isMarker = [] := hnone fun t ht => by simp [Window.tokens, hsplit, ht]
  have hcontent : w.content.toList.filter Token.isMarker = [] :=
    hnone fun t ht => List.mem_cons_of_mem _ (List.mem_append_right _ ht)
  have hmarkers := List.filter_eq_self.2 (isMarker_markersTo cfg.kinds unit (w.length cfg / unit) w.content hopened)
  unfold Window.written
  cases cfg.policy with
  | before => simp [hnewline, hblank, hindent, hcontent, hmarkers]
  | after => simp [hnewline, hblank, hindent, hcontent, hmarkers]
  | skip => simp [hnewline, hbreaks, hcontent, hmarkers]

def Layout.marks (l : Layout) : Marks :=
  ⟨l.tokens.filter Token.isMarker, l.fault⟩

theorem Layout.marks_behind (l : Layout) (ts : List Token) :
    (l.behind ts).marks = l.marks.behind (ts.filter Token.isMarker) := by
  simp [behind, marks, Marks.behind]

/-- **The markers and the fault of a layout are those of its landings.** -/
theorem marks_layout (cfg : Config) (failure : Option Fault) {segs : List Segment}
    (hsegs : ∀ seg ∈ segs, ∀ t ∈ seg.tokens, t.isMarker = false) : ∀ (unit : Nat) {opened : List Token},
    (∀ m ∈ opened, m.isMarker = true) →
    (layout cfg failure unit opened segs).marks = marks cfg.kinds failure unit opened (landings cfg segs) := by
  induction segs with
  | nil =>
    intro unit opened hopened
    have hclose : (opened.map cfg.kinds.closing).filter Token.isMarker = opened.map cfg.kinds.closing := by
      refine List.filter_eq_self.2 fun m hm => ?_
      obtain ⟨o, ho, rfl⟩ := List.mem_map.1 hm
      exact hopened o ho
    cases failure with
    | none => exact congrArg (fun ms => Marks.mk ms none) hclose
    | some f => rfl
  | cons seg segs ih =>
    intro unit opened hopened
    obtain ⟨hseg, hrest⟩ := List.forall_mem_cons.1 hsegs
    cases seg with
    | token t =>
      have ht : t.isMarker = false := hseg t List.mem_cons_self
      rw [layout, Layout.marks_behind, ih hrest unit hopened, List.filter_cons_of_neg (by simp [ht])]
      rfl
    | window w =>
      -- the levels see the window as its landing alone, so both sides take the same branch
      have hlands : landings cfg (.window w :: segs) = ⟨w.length cfg, w.content⟩ :: landings cfg segs := rfl
      rw [hlands, marks]
      by_cases hopen : w.content ≠ none ∨ failure = none
      · rw [layout_window hopen, if_pos hopen]
        dsimp only
        by_cases hd : w.length cfg % fixedBy unit (w.length cfg) = 0
        · have hopened' := isMarker_openedAt cfg.kinds (fixedBy unit (w.length cfg))
            (w.length cfg / fixedBy unit (w.length cfg)) w.content hopened
          rw [if_pos hd, if_pos hd, Layout.marks_behind, markers_written hseg _ hopened]
          exact congrArg _ (ih hrest _ hopened')
        · rw [if_neg hd, if_neg hd]
          rfl
      · rw [layout_window_cut hopen, if_neg hopen]
        rfl

theorem unmarked_segments (cfg : Config) {ts : List Token} (hts : ∀ t ∈ ts, t.IsScanned) :
    ∀ seg ∈ segments cfg ts, ∀ t ∈ seg.tokens, t.isMarker = false := by
  intro seg hseg t ht
  refine (hts t ?_).unmarked
  rw [← tokens_segments cfg ts]
  exact List.mem_flatMap.2 ⟨seg, hseg, ht⟩

/-- What is so of every opening marker, and of what closes it, is so of the markers of some landings. -/
theorem forall_marks {p : Token → Prop} {kinds : Kinds} (hclosing : ∀ m, p m → p (kinds.closing m))
    (hopening : ∀ (t : Token) unit level, p (t.opening kinds unit level)) (failure : Option Fault)
    (ls : List Landing) : ∀ (unit : Nat) {opened : List Token}, (∀ m ∈ opened, p m) →
      ∀ m ∈ (marks kinds failure unit opened ls).markers, p m := by
  induction ls with
  | nil =>
    intro unit opened hopened m hm
    rw [marks] at hm
    split at hm
    · obtain ⟨o, ho, rfl⟩ := List.mem_map.1 hm
      exact hclosing o (hopened o ho)
    · cases hm
  | cons l ls ih =>
    intro unit opened hopened m hm
    rw [marks] at hm
    split at hm
    · dsimp only at hm
      split at hm
      · rcases List.mem_append.1 hm with hm | hm
        · exact forall_markersTo kinds _ _ opened l.content (fun o ho => hclosing o (hopened o ho))
            (fun t _ level => hopening t _ level) m hm
        · exact ih _ (forall_openedAt kinds _ _ l.content hopened fun t _ level => hopening t _ level) m hm
      · cases hm
    · cases hm

/-! ## Lines that land alike -/

/-- Lines that land alike, where a relation says of two tokens that markers in front of them are alike. -/
def LandAlike (R : Token → Token → Prop) (l l' : Landing) : Prop :=
  l.length = l'.length ∧ Option.Rel R l.content l'.content

theorem LandAlike.content_eq_none {R : Token → Token → Prop} {l l' : Landing} (h : LandAlike R l l') :
    l.content = none ↔ l'.content = none := by
  obtain ⟨length, content⟩ := l
  obtain ⟨length', content'⟩ := l'
  cases h.2 <;> simp

/-- What carries markers over from streams with some types to those with others: a relation of the tokens that markers
stand in front of, and one of the markers. -/
structure Carries (kinds kinds' : Kinds) (R M : Token → Token → Prop) : Prop where
  opening : ∀ {t t' : Token}, R t t' → ∀ unit level, M (t.opening kinds unit level) (t'.opening kinds' unit level)
  closing : ∀ {m m' : Token}, M m m' → M (kinds.closing m) (kinds'.closing m')
  place : ∀ {t t' : Token}, R t t' → t.start.line = t'.start.line ∧ t.start.column = t'.start.column

section
variable {kinds kinds' : Kinds} {R M : Token → Token → Prop} (h : Carries kinds kinds' R M)
include h

theorem Carries.refusal {l l' : Landing} (hl : LandAlike R l l') (unit : Nat) : l.refusal unit = l'.refusal unit := by
  obtain ⟨length, content⟩ := l
  obtain ⟨length', content'⟩ := l'
  obtain ⟨rfl, hc⟩ := hl
  cases hc with
  | none => rfl
  | some hr =>
    obtain ⟨hline, hcolumn⟩ := h.place hr
    simp [Landing.refusal, hline, hcolumn]

theorem Carries.openingsTo {opened opened' : List Token} (ho : List.Forall₂ M opened opened') {c c' : Option Token}
    (hc : Option.Rel R c c') (unit depth : Nat) :
    List.Forall₂ M (openingsTo kinds unit depth opened c) (openingsTo kinds' unit depth opened' c') := by
  cases hc with
  | none => exact .nil
  | some hr =>
    rw [Offside.openingsTo, Offside.openingsTo, ho.length_eq, Option.elim_some, Option.elim_some,
      List.forall₂_map_left_iff, List.forall₂_map_right_iff, List.forall₂_same]
    exact fun level _ => h.opening hr unit level

theorem Carries.closings {opened opened' : List Token} (ho : List.Forall₂ M opened opened') :
    List.Forall₂ M (opened.map kinds.closing) (opened'.map kinds'.closing) := by
  rw [List.forall₂_map_left_iff, List.forall₂_map_right_iff]
  exact ho.imp fun _ _ => h.closing

theorem Carries.markersTo {opened opened' : List Token} (ho : List.Forall₂ M opened opened') {c c' : Option Token}
    (hc : Option.Rel R c c') (unit depth : Nat) :
    List.Forall₂ M (markersTo kinds unit depth opened c) (markersTo kinds' unit depth opened' c') := by
  rw [Offside.markersTo, Offside.markersTo, ho.length_eq]
  exact List.rel_append (h.closings (List.forall₂_take _ ho)) (h.openingsTo ho hc unit depth)

theorem Carries.openedAt {opened opened' : List Token} (ho : List.Forall₂ M opened opened') {c c' : Option Token}
    (hc : Option.Rel R c c') (unit depth : Nat) :
    List.Forall₂ M (openedAt kinds unit depth opened c) (openedAt kinds' unit depth opened' c') := by
  rw [Offside.openedAt, Offside.openedAt, ho.length_eq]
  exact List.rel_append (List.forall₂_reverse_iff.2 (h.openingsTo ho hc unit depth)) (List.forall₂_drop _ ho)

/-- **Streams have the same markers where their lines land alike**, and end in the same fault. -/
theorem marks_alike (failure : Option Fault) {ls ls' : List Landing} (hls : List.Forall₂ (LandAlike R) ls ls') :
    ∀ (unit : Nat) {opened opened' : List Token}, List.Forall₂ M opened opened' →
      List.Forall₂ M (marks kinds failure unit opened ls).markers (marks kinds' failure unit opened' ls').markers ∧
        (marks kinds failure unit opened ls).fault = (marks kinds' failure unit opened' ls').fault := by
  induction hls with
  | nil =>
    intro unit opened opened' ho
    cases failure with
    | none => exact ⟨h.closings ho, rfl⟩
    | some f => exact ⟨.nil, rfl⟩
  | @cons l l' ls ls' hl _ ih =>
    intro unit opened opened' ho
    have hrefusal := h.refusal hl
    -- a source that fails does so in front of the same line
    have hcut : (l.content ≠ none ∨ failure = none) ↔ (l'.content ≠ none ∨ failure = none) := by
      rw [Ne, Ne, hl.content_eq_none]
    obtain ⟨hlength, hc⟩ := hl
    rw [marks, marks]
    by_cases hopen : l.content ≠ none ∨ failure = none
    · rw [if_pos hopen, if_pos (hcut.1 hopen), hlength]
      dsimp only
      by_cases hd : l'.length % fixedBy unit l'.length = 0
      · obtain ⟨hmarkers, hfault⟩ := ih (fixedBy unit l'.length) (h.openedAt ho hc _ (l'.length / fixedBy unit l'.length))
        rw [if_pos hd, if_pos hd]
        exact ⟨List.rel_append (h.markersTo ho hc _ _) hmarkers, hfault⟩
      · rw [if_neg hd, if_neg hd, hrefusal]
        exact ⟨.nil, rfl⟩
    · rw [if_neg hopen, if_neg (mt hcut.2 hopen)]
      exact ⟨.nil, rfl⟩

end

/-! ## Lines measured by their columns -/

theorem Window.length_of_uncarried {cfg : Config} {w : Window} {t : Token} (hcontent : w.content = some t)
    (hlast : (w.lastBreak cfg).carriedIndent = 0) :
    w.length cfg = if w.indent cfg = [] then t.columnsBefore else Token.totalWidth (w.indent cfg) := by
  rw [length, hcontent, hlast]
  by_cases h : w.indent cfg = []
  · simp [h]
  · simp [h]

/-- Whether the lines of some tokens are indented by what their columns say. -/
def Measured (cfg : Config) (ts : List Token) : Prop :=
  ∀ w t, .window w ∈ segments cfg ts → w.content = some t → w.length cfg = t.columnsBefore

theorem Measured.of_segments {cfg : Config} {ts us : List Token} (h : Measured cfg ts) (segs : List Segment)
    (hs : segments cfg ts = segs ++ segments cfg us) : Measured cfg us :=
  fun w t hw => h w t (by rw [hs]; exact List.mem_append_right _ hw)

/-- Without white space there is nothing but the columns to measure by. -/
theorem measured_of_no_whitespace {cfg : Config} {ts : List Token} (hcarried : ∀ t ∈ ts, t.carriedIndent = 0)
    (hnone : ∀ t ∈ ts, cfg.isWhitespace t = false) : Measured cfg ts := by
  intro w c hw hcontent
  have hmem : ∀ t ∈ w.tokens, t ∈ ts := by
    intro t ht
    rw [← tokens_segments cfg ts]
    exact List.mem_flatMap.2 ⟨_, hw, ht⟩
  have hgap : ∀ t ∈ w.gap, t ∈ ts := fun t ht => hmem t (List.mem_cons_of_mem _ (List.mem_append_left _ ht))
  have hindent : w.indent cfg = [] := by
    refine List.rtakeWhile_eq_nil_iff.2 fun hne => ?_
    rw [hnone _ (hgap _ (List.getLast_mem hne))]
    nofun
  have hlast : (w.lastBreak cfg).carriedIndent = 0 := by
    unfold Window.lastBreak
    cases h : (w.blank cfg).getLast? with
    | none => exact hcarried _ (hmem _ List.mem_cons_self)
    | some t =>
      have ht : t ∈ w.gap := (List.rdropWhile_prefix _ w.gap).subset (List.mem_of_getLast? h)
      exact hcarried t (hgap t ht)
  rw [Window.length_of_uncarried hcontent hlast, if_pos hindent]

/-- The tokens that lines begin with behind line breaks, and none at the end where only line breaks are left.  The flag
says whether a line break was read and no content since. -/
def lineStarts (cfg : Config) : Bool → List Token → List (Option Token)
  | false, [] => []
  | true, [] => [none]
  | fresh, t :: ts =>
    match cfg.classify t with
    | .newline => lineStarts cfg true ts
    | .whitespace => lineStarts cfg fresh ts
    | .other => if fresh then some t :: lineStarts cfg false ts else lineStarts cfg false ts

theorem lineStarts_fresh (cfg : Config) : ∀ ts : List Token, lineStarts cfg true ts =
    (ts.dropWhile cfg.isGap).head? :: lineStarts cfg false (ts.dropWhile cfg.isGap).tail
  | [] => rfl
  | t :: ts => by
    have ih := lineStarts_fresh cfg ts
    cases hc : cfg.classify t with
    | newline => simpa [lineStarts, hc, Config.isGap, List.dropWhile_cons] using ih
    | whitespace => simpa [lineStarts, hc, Config.isGap, List.dropWhile_cons] using ih
    | other => simp [lineStarts, hc, Config.isGap]

/-- A line lands where its column says. -/
def Landing.ofStart (content : Option Token) : Landing :=
  ⟨content.elim 0 Token.columnsBefore, content⟩

theorem landings_of_measured (cfg : Config) (ts : List Token) : Measured cfg ts →
    landings cfg (segments cfg ts) = (lineStarts cfg false ts).map .ofStart := by
  fun_induction segments cfg ts with
  | case1 => exact fun _ => rfl
  | case2 t ts hc ih =>
    intro h
    let w : Window := ⟨t, ts.takeWhile cfg.isGap, (ts.dropWhile cfg.isGap).head?⟩
    have hsegs : segments cfg (t :: ts) = .window w :: segments cfg (ts.dropWhile cfg.isGap).tail :=
      segments_of_newline hc ts
    have hland : (⟨w.length cfg, w.content⟩ : Landing) = .ofStart w.content := by
      cases hcontent : w.content with
      | none => rw [Window.length_of_end hcontent, Landing.ofStart, Option.elim_none]
      | some c => rw [h w c (by rw [hsegs]; exact List.mem_cons_self) hcontent, Landing.ofStart, Option.elim_some]
    have hrest := ih (h.of_segments [.window w] hsegs)
    simp only [lineStarts, hc]
    rw [lineStarts_fresh, List.map_cons, ← hrest, ← hland]
    rfl
  | case3 t ts hc ih =>
    intro h
    have hrest := ih (h.of_segments [.token t] (segments_of_not_newline hc ts))
    cases hclass : cfg.classify t with
    | newline => exact absurd hclass hc
    | whitespace =>
      simp only [lineStarts, hclass]
      exact hrest
    | other =>
      simp only [lineStarts, hclass, Bool.false_eq_true, if_false]
      exact hrest

end Offside
