import Offside.Proofs.Scanner.Shifts
import Offside.Proofs.Stream.Layout
/-!
# Layouts of moved tokens

A layout does not look at where its tokens stand, beyond their columns, nor at what line breaks say, beyond the
indentation that they carry.  So where tokens are moved to other offsets and lines, and markers move with the tokens
that they stand in front of (`Relocates`), the layout of the moved tokens is the moved layout, its fault included
(`layout_relocated`).
-/
namespace Offside

/-- Moving tokens, and markers with the tokens in front of which they stand.  Only offsets and lines may change, and
what line breaks say beyond the indentation that they carry. -/
structure Relocates (kinds : Kinds) (move : Token → Token) : Prop where
  type : ∀ t, (move t).type = t.type
  value : ∀ t, t.type.key ≠ kinds.newline.key → (move t).value = t.value
  carried : ∀ t, (move t).carriedIndent = t.carriedIndent
  column : ∀ t, (move t).start.column = t.start.column
  opening : ∀ unit t level, move (t.opening kinds unit level) = (move t).opening kinds unit level
  closing : ∀ t, t.type.key ≠ kinds.newline.key → move (kinds.closing t) = kinds.closing (move t)

def Window.map (move : Token → Token) (w : Window) : Window :=
  ⟨move w.newline, w.gap.map move, w.content.map move⟩

def Segment.map (move : Token → Token) : Segment → Segment
  | .token t => .token (move t)
  | .window w => .window (w.map move)

theorem rdropWhile_map {α β : Type} (f : α → β) (p : β → Bool) (l : List α) :
    (l.map f).rdropWhile p = (l.rdropWhile (p ∘ f)).map f := by
  rw [List.rdropWhile, List.rdropWhile, ← List.map_reverse, List.dropWhile_map, List.map_reverse]

theorem rtakeWhile_map {α β : Type} (f : α → β) (p : β → Bool) (l : List α) :
    (l.map f).rtakeWhile p = (l.rtakeWhile (p ∘ f)).map f := by
  rw [List.rtakeWhile, List.rtakeWhile, ← List.map_reverse, List.takeWhile_map, List.map_reverse]

namespace Relocates

variable {cfg : Config} {move : Token → Token} (h : Relocates cfg.kinds move)
include h

theorem classify (t : Token) : cfg.classify (move t) = cfg.classify t := by
  rw [Config.classify, Config.classify, h.type]
  by_cases hn : t.type.key = cfg.kinds.newline.key
  · rw [if_pos hn, if_pos hn]
  · rw [h.value t hn]

theorem isGap : cfg.isGap ∘ move = cfg.isGap := by
  funext t
  simp only [Function.comp_apply, Config.isGap, h.classify]

theorem isWhitespace : cfg.isWhitespace ∘ move = cfg.isWhitespace := by
  funext t
  simp only [Function.comp_apply, Config.isWhitespace, h.classify]

theorem segments_map (ts : List Token) : segments cfg (ts.map move) = (segments cfg ts).map (Segment.map move) := by
  fun_induction segments cfg ts with
  | case1 => rw [List.map_nil, segments, List.map_nil]
  | case2 t ts hc ih =>
    rw [List.map_cons, segments_of_newline (by rw [h.classify, hc]), List.takeWhile_map, List.dropWhile_map, h.isGap,
      List.head?_map, ← List.map_tail, ih]
    rfl
  | case3 t ts hc ih =>
    rw [List.map_cons, segments_of_not_newline (by rwa [h.classify]), ih]
    rfl

/-! ## Windows -/

theorem totalWidth_map {ts : List Token} (hts : ∀ t ∈ ts, t.type.key ≠ cfg.kinds.newline.key) :
    Token.totalWidth (ts.map move) = Token.totalWidth ts := by
  induction ts with
  | nil => rfl
  | cons t ts ih =>
    obtain ⟨ht, hts⟩ := List.forall_mem_cons.1 hts
    rw [List.map_cons, Token.totalWidth, Token.totalWidth, ih hts, Token.width, Token.width, h.value t ht]

theorem columnsBefore_map (t : Token) : (move t).columnsBefore = t.columnsBefore := by
  rw [Token.columnsBefore, Token.columnsBefore, h.column]

theorem blank_map (w : Window) : (w.map move).blank cfg = (w.blank cfg).map move := by
  rw [Window.blank, Window.blank, Window.map, rdropWhile_map, h.isWhitespace]

theorem indent_map (w : Window) : (w.map move).indent cfg = (w.indent cfg).map move := by
  rw [Window.indent, Window.indent, Window.map, rtakeWhile_map, h.isWhitespace]

theorem lastBreak_map (w : Window) : (w.map move).lastBreak cfg = move (w.lastBreak cfg) := by
  rw [Window.lastBreak, Window.lastBreak, h.blank_map, List.getLast?_map]
  cases (w.blank cfg).getLast? <;> rfl

theorem length_map (w : Window) : (w.map move).length cfg = w.length cfg := by
  have hcontent : (w.map move).content = w.content.map move := rfl
  have hindent : ∀ t ∈ w.indent cfg, t.type.key ≠ cfg.kinds.newline.key := by
    intro t ht hn
    have hwhitespace : cfg.isWhitespace t = true := List.mem_rtakeWhile_imp ht
    rw [isWhitespace_of_newline ((cfg.classify_eq_newline t).2 hn)] at hwhitespace
    cases hwhitespace
  simp only [Window.length, hcontent, h.indent_map, h.lastBreak_map, h.carried, h.totalWidth_map hindent,
    List.map_eq_nil_iff]
  cases w.content with
  | none => rfl
  | some t =>
    dsimp only [Option.map_some]
    rw [h.columnsBefore_map]

/-! ## Markers -/

theorem closings_map {ts : List Token} (hts : ∀ t ∈ ts, t.type.key ≠ cfg.kinds.newline.key) :
    (ts.map move).map cfg.kinds.closing = (ts.map cfg.kinds.closing).map move := by
  rw [List.map_map, List.map_map]
  exact List.map_congr_left fun t ht => (h.closing t (hts t ht)).symm

theorem openingsTo_map (unit depth : Nat) (opened : List Token) (content : Option Token) :
    openingsTo cfg.kinds unit depth (opened.map move) (content.map move) =
      (openingsTo cfg.kinds unit depth opened content).map move := by
  cases content with
  | none => rfl
  | some t =>
    simp only [openingsTo, Option.map_some, Option.elim_some, List.length_map, List.map_map]
    exact List.map_congr_left fun level _ => (h.opening unit t level).symm

theorem markersTo_map (unit depth : Nat) {opened : List Token}
    (hopened : ∀ t ∈ opened, t.type.key ≠ cfg.kinds.newline.key) (content : Option Token) :
    markersTo cfg.kinds unit depth (opened.map move) (content.map move) =
      (markersTo cfg.kinds unit depth opened content).map move := by
  have hclosed := h.closings_map fun t ht => hopened t (List.mem_of_mem_take (i := opened.length - depth) ht)
  rw [markersTo, markersTo, h.openingsTo_map, List.length_map, ← List.map_take, hclosed, List.map_append]

theorem openedAt_map (unit depth : Nat) (opened : List Token) (content : Option Token) :
    openedAt cfg.kinds unit depth (opened.map move) (content.map move) =
      (openedAt cfg.kinds unit depth opened content).map move := by
  rw [openedAt, openedAt, h.openingsTo_map, List.length_map, ← List.map_drop, List.map_append, List.map_reverse]

theorem written_map (unit : Nat) {opened : List Token}
    (hopened : ∀ t ∈ opened, t.type.key ≠ cfg.kinds.newline.key) (w : Window) :
    (w.map move).written cfg unit (opened.map move) = (w.written cfg unit opened).map move := by
  have hcontent : (w.map move).content = w.content.map move := rfl
  have hnewline : (w.map move).newline = move w.newline := rfl
  have hkept : (fun t => !cfg.isWhitespace t) ∘ move = fun t => !cfg.isWhitespace t := by
    funext t
    exact congrArg (!·) (congrFun h.isWhitespace t)
  unfold Window.written
  rw [h.length_map, hcontent, h.markersTo_map _ _ hopened, h.blank_map, h.indent_map, hnewline, Option.toList_map]
  cases cfg.policy with
  | before | after => simp
  | skip => simp [List.filter_map, hkept]

theorem openedBehind_map (unit : Nat) (opened : List Token) (w : Window) :
    (w.map move).openedBehind cfg unit (opened.map move) = (w.openedBehind cfg unit opened).map move := by
  have hcontent : (w.map move).content = w.content.map move := rfl
  rw [Window.openedBehind, Window.openedBehind, h.length_map, hcontent, h.openedAt_map]

/-- The refusal of a moved window is the moved refusal. -/
theorem refusal_map {moveFault : Fault → Fault} {w : Window} {t : Token} (hcontent : w.content = some t)
    (hfault : ∀ length unit, moveFault (.indent ⟨length, unit, t.start.line, t.start.column⟩) =
      .indent ⟨length, unit, (move t).start.line, t.start.column⟩) (unit : Nat) :
    moveFault (.indent (w.refusal cfg unit)) = .indent ((w.map move).refusal cfg unit) := by
  have hmoved : (w.map move).content = some (move t) := congrArg (Option.map move) hcontent
  rw [Window.refusal, Window.refusal, h.length_map, hcontent, hmoved]
  simp only [Option.elim_some, hfault, h.column]

/-! ## Layouts -/

/-- **The layout of moved tokens is the moved layout**, where faults move as the tokens do that they are about. -/
theorem layout_relocated (moveFault : Fault → Fault) (failure : Option Fault) (segs : List Segment) :
    (∀ seg ∈ segs, ∀ t ∈ seg.tokens, ∀ length unit, moveFault (.indent ⟨length, unit, t.start.line, t.start.column⟩) =
      .indent ⟨length, unit, (move t).start.line, t.start.column⟩) → ∀ (unit : Nat) (opened : List Token),
      (∀ t ∈ opened, t.type.key ≠ cfg.kinds.newline.key) →
      let l := layout cfg failure unit opened segs
      let l' := layout cfg (failure.map moveFault) unit (opened.map move) (segs.map (Segment.map move))
      l'.tokens = l.tokens.map move ∧ l'.fault = l.fault.map moveFault := by
  induction segs with
  | nil =>
    intro _ unit opened hopened
    cases failure with
    | none => exact ⟨h.closings_map hopened, rfl⟩
    | some f => exact ⟨rfl, rfl⟩
  | cons seg segs ih =>
    intro hfault unit opened hopened
    obtain ⟨hseg, hsegs⟩ := List.forall_mem_cons.1 hfault
    cases seg with
    | token t =>
      obtain ⟨htokens, hend⟩ := ih hsegs unit opened hopened
      exact ⟨congrArg (move t :: ·) htokens, hend⟩
    | window w =>
      rw [List.map_cons, Segment.map]
      by_cases hopen : w.content ≠ none ∨ failure = none
      · have hopen' : (w.map move).content ≠ none ∨ failure.map moveFault = none := by
          refine hopen.imp (fun hc => ?_) fun hn => by rw [hn, Option.map_none]
          exact fun hn => hc (Option.map_eq_none_iff.1 hn)
        rw [layout_window hopen, layout_window hopen']
        dsimp only
        rw [h.length_map, h.openedBehind_map, h.written_map _ hopened]
        generalize hfixed : fixedBy unit (w.length cfg) = fixed
        by_cases hd : w.length cfg % fixed = 0
        · rw [if_pos hd, if_pos hd]
          have hbehind : ∀ t ∈ w.openedBehind cfg fixed opened, t.type.key ≠ cfg.kinds.newline.key :=
            forall_openedAt cfg.kinds _ _ w.content hopened fun _ _ _ => cfg.kinds.distinct.2.1
          obtain ⟨htokens, hend⟩ := ih hsegs fixed (w.openedBehind cfg fixed opened) hbehind
          refine ⟨?_, hend⟩
          rw [Layout.behind, Layout.behind, htokens, List.map_append]
        · rw [if_neg hd, if_neg hd]
          refine ⟨rfl, ?_⟩
          have hcontent : w.content ≠ none := fun hn => hd (by rw [Window.length_of_end hn, Nat.zero_mod])
          obtain ⟨t, ht⟩ := Option.ne_none_iff_exists'.1 hcontent
          have hmem : t ∈ (Segment.window w).tokens := by simp [Segment.tokens, Window.tokens, ht]
          exact congrArg some (h.refusal_map ht (hseg t hmem) fixed).symm
      · have hopen' : ¬ ((w.map move).content ≠ none ∨ failure.map moveFault = none) := by
          refine mt (fun hor => ?_) hopen
          exact hor.imp (fun hc hn => hc (Option.map_eq_none_iff.2 hn)) Option.map_eq_none_iff.1
        rw [layout_window_cut hopen, layout_window_cut hopen']
        exact ⟨rfl, rfl⟩

/-- The layout of some moved tokens with no level open. -/
theorem layout_map (moveFault : Fault → Fault) (failure : Option Fault) (ts : List Token)
    (hfault : ∀ t ∈ ts, ∀ length unit, moveFault (.indent ⟨length, unit, t.start.line, t.start.column⟩) =
      .indent ⟨length, unit, (move t).start.line, t.start.column⟩) (unit : Nat) :
    let l := layout cfg failure unit [] (segments cfg ts)
    let l' := layout cfg (failure.map moveFault) unit [] (segments cfg (ts.map move))
    l'.tokens = l.tokens.map move ∧ l'.fault = l.fault.map moveFault := by
  rw [h.segments_map]
  refine h.layout_relocated moveFault failure (segments cfg ts) (fun seg hseg t ht => hfault t ?_) unit []
    (List.forall_mem_nil _)
  rw [← tokens_segments cfg ts]
  exact List.mem_flatMap.2 ⟨seg, hseg, ht⟩

end Relocates
end Offside
