import Offside.Proofs.Stream.Layout
/-!
# Streams, line by line

The layout of a list of tokens fixes its unit at the first indented line, as the stream does.  Nothing changes if that
unit is known from the start (`layout_eq`): a window's depth is then a matter of that window alone, and so is whether it
has one (`drain_line_by_line`).
-/
namespace Offside

namespace Segment

variable (cfg : Config) (unit : Nat) (opened : List Token)

/-- The indentation measured in a segment; there is none outside windows. -/
def length : Segment → Nat
  | .token _ => 0
  | .window w => w.length cfg

/-- Whether the unit divides the indentation. -/
def fits (seg : Segment) : Bool :=
  seg.length cfg % unit == 0

def written : Segment → List Token
  | .token t => [t]
  | .window w => w.written cfg unit opened

def openedBehind : Segment → List Token
  | .token _ => opened
  | .window w => w.openedBehind cfg unit opened

def window? : Segment → Option Window
  | .token _ => none
  | .window w => some w

end Segment

/-- The unit of some segments: the one that is set, or else the first indentation other than zero, zero where there is
none. -/
def unitOf (cfg : Config) (unit : Nat) (segs : List Segment) : Nat :=
  if unit = 0 then ((segs.map (Segment.length cfg)).find? (0 < ·)).getD 0 else unit

/-- The tokens of segments with their markers. -/
def writtenAll (cfg : Config) (unit : Nat) (opened : List Token) : List Segment → List Token
  | [] => []
  | seg :: segs => seg.written cfg unit opened ++ writtenAll cfg unit (seg.openedBehind cfg unit opened) segs

/-- The opening markers of the levels that are open behind some segments. -/
def openedBehindAll (cfg : Config) (unit : Nat) (opened : List Token) (segs : List Segment) : List Token :=
  segs.foldl (Segment.openedBehind cfg unit) opened

/-- The first window whose indentation the unit does not divide. -/
def misfit? (cfg : Config) (unit : Nat) (segs : List Segment) : Option Window :=
  (segs.filterMap Segment.window?).find? (fun w => w.length cfg % unit != 0)

theorem unitOf_fixedBy (cfg : Config) (unit : Nat) (seg : Segment) (segs : List Segment) :
    unitOf cfg (fixedBy unit (seg.length cfg)) segs = unitOf cfg unit (seg :: segs) := by
  unfold unitOf fixedBy
  by_cases hu : unit = 0
  · by_cases hl : seg.length cfg = 0
    · simp [hu, hl]
    · simp [hu, hl, List.find?_cons_of_pos (p := fun l => decide (0 < l)) (by simpa using Nat.pos_of_ne_zero hl)]
  · simp [hu]

theorem fixedBy_eq_unitOf {cfg : Config} {seg : Segment} (hl : seg.length cfg ≠ 0) (unit : Nat) (segs : List Segment) :
    fixedBy unit (seg.length cfg) = unitOf cfg unit (seg :: segs) := by
  rw [← unitOf_fixedBy, unitOf, if_neg]
  unfold fixedBy
  split <;> assumption

theorem Segment.eq_of_length_zero {cfg : Config} {seg : Segment} (hl : seg.length cfg = 0) (unit unit' : Nat)
    (opened : List Token) :
    seg.fits cfg unit = seg.fits cfg unit' ∧ seg.written cfg unit opened = seg.written cfg unit' opened ∧
      seg.openedBehind cfg unit opened = seg.openedBehind cfg unit' opened := by
  refine ⟨by simp [fits, hl], ?_, ?_⟩
  · cases seg with
    | token t => rfl
    | window w =>
      have hw : w.length cfg = 0 := hl
      simp [written, Window.written, hw]
  · cases seg with
    | token t => rfl
    | window w =>
      have hw : w.length cfg = 0 := hl
      simp [openedBehind, Window.openedBehind, hw]

theorem layout_cons (cfg : Config) (unit : Nat) (opened : List Token) (seg : Segment) (segs : List Segment) :
    layout cfg none unit opened (seg :: segs) =
      let fixed := fixedBy unit (seg.length cfg)
      if seg.fits cfg fixed then
        (layout cfg none fixed (seg.openedBehind cfg fixed opened) segs).behind (seg.written cfg fixed opened)
      else ⟨[], seg.window?.map (fun w => .indent (w.refusal cfg fixed)), .counted cfg.kinds unit opened⟩ := by
  cases seg with
  | token t => simp [layout, Segment.length, Segment.fits, Segment.openedBehind, Segment.written]
  | window w => cases hc : w.content <;> simp [layout, hc, Segment.length, Segment.fits, Segment.openedBehind,
      Segment.written, Segment.window?]

theorem misfit?_cons (cfg : Config) (unit : Nat) (seg : Segment) (segs : List Segment) :
    misfit? cfg unit (seg :: segs) = if seg.fits cfg unit then misfit? cfg unit segs else seg.window? := by
  cases seg with
  | token t => simp [misfit?, Segment.window?, Segment.fits, Segment.length]
  | window w =>
    by_cases h : w.length cfg % unit = 0
    · simp [misfit?, Segment.window?, Segment.fits, Segment.length, h]
    · simp [misfit?, Segment.window?, Segment.fits, Segment.length, h]

theorem Segment.window?_ne_none {cfg : Config} {unit : Nat} {seg : Segment} (h : seg.fits cfg unit = false) :
    seg.window? ≠ none := by
  cases seg with
  | token t => simp [fits, length] at h
  | window w => nofun

/-- **The unit may as well be known from the start**: the layout is that of the segments up to the first that does not
fit, written out with the one unit, and every level is closed behind them if there is none.  The induction is on the
segments; as long as the stream has no unit, every indentation is zero, and its depth is the same by any unit. -/
theorem layout_eq (cfg : Config) (segs : List Segment) : ∀ (unit : Nat) (opened : List Token),
    let fixed := unitOf cfg unit segs
    let good := segs.takeWhile (Segment.fits cfg fixed)
    let l := layout cfg none unit opened segs
    l.tokens = writtenAll cfg fixed opened good ++
        (if misfit? cfg fixed segs = none then (openedBehindAll cfg fixed opened good).map cfg.kinds.closing else []) ∧
      l.fault = (misfit? cfg fixed segs).map (fun w => .indent (w.refusal cfg fixed)) := by
  induction segs with
  | nil => exact fun unit opened => ⟨rfl, rfl⟩
  | cons seg segs ih =>
    intro unit opened
    have hstep := layout_cons cfg unit opened seg segs
    have hnext := unitOf_fixedBy cfg unit seg segs
    -- with the unit of the moment or the one in the end, this segment comes out the same
    have hsame : fixedBy unit (seg.length cfg) = unitOf cfg unit (seg :: segs) ∨ seg.length cfg = 0 := by
      by_cases hl : seg.length cfg = 0
      · exact .inr hl
      · exact .inl (fixedBy_eq_unitOf hl unit segs)
    generalize unitOf cfg unit (seg :: segs) = fixed at hnext hsame ⊢
    generalize fixedBy unit (seg.length cfg) = now at hstep hnext hsame
    obtain ⟨hfits, hwritten, hopened⟩ : seg.fits cfg now = seg.fits cfg fixed ∧
        seg.written cfg now opened = seg.written cfg fixed opened ∧
        seg.openedBehind cfg now opened = seg.openedBehind cfg fixed opened := by
      rcases hsame with rfl | hl
      · exact ⟨rfl, rfl, rfl⟩
      · exact Segment.eq_of_length_zero hl now fixed opened
    obtain ⟨htokens, hfault⟩ := ih now (seg.openedBehind cfg fixed opened)
    rw [hnext] at htokens hfault
    dsimp only at hstep htokens hfault ⊢
    rw [hfits, hwritten, hopened] at hstep
    rw [hstep, misfit?_cons, List.takeWhile_cons]
    by_cases hf : seg.fits cfg fixed = true
    · simp only [hf, if_true, Layout.behind, writtenAll, openedBehindAll, List.foldl_cons, List.append_assoc]
      exact ⟨congrArg _ htokens, hfault⟩
    · have hf : seg.fits cfg fixed = false := Bool.eq_false_iff.2 hf
      -- an indentation that does not fit is not zero
      have hnow : now = fixed := hsame.resolve_right (fun hl => by simp [Segment.fits, hl] at hf)
      simp only [hf, Bool.false_eq_true, if_false, if_neg (Segment.window?_ne_none hf), hnow, writtenAll,
        List.append_nil]
      exact ⟨trivial, trivial⟩

theorem misfit?_ne_none_iff {cfg : Config} {unit : Nat} {segs : List Segment} :
    misfit? cfg unit segs ≠ none ↔ ∃ w, .window w ∈ segs ∧ ¬ unit ∣ w.length cfg := by
  rw [misfit?, Ne, List.find?_eq_none]
  constructor
  · intro h
    push Not at h
    obtain ⟨w, hw, hd⟩ := h
    obtain ⟨seg, hseg, hwindow⟩ := List.mem_filterMap.1 hw
    cases seg with
    | token t => cases hwindow
    | window w' =>
      cases hwindow
      exact ⟨w, hseg, by simpa [Nat.dvd_iff_mod_eq_zero] using hd⟩
  · rintro ⟨w, hseg, hd⟩ hall
    exact hall w (List.mem_filterMap.2 ⟨_, hseg, rfl⟩) (by simpa [Nat.dvd_iff_mod_eq_zero] using hd)

/-- What stands in front of the first segment that does not fit is everything that does up to there. -/
theorem eq_append_of_misfit? {cfg : Config} {unit : Nat} {w : Window} : ∀ {segs : List Segment},
    misfit? cfg unit segs = some w → ∃ rest, segs = segs.takeWhile (Segment.fits cfg unit) ++ .window w :: rest
  | [], h => by cases h
  | seg :: segs, h => by
    rw [misfit?_cons] at h
    by_cases hf : seg.fits cfg unit = true
    · rw [if_pos hf] at h
      obtain ⟨rest, hrest⟩ := eq_append_of_misfit? h
      refine ⟨rest, ?_⟩
      rw [List.takeWhile_cons_of_pos hf, List.cons_append, ← hrest]
    · rw [if_neg hf] at h
      refine ⟨segs, ?_⟩
      rw [List.takeWhile_cons_of_neg hf]
      cases seg with
      | token t => cases h
      | window w' =>
        cases h
        rfl

/-- **A stream works line by line.**  Its tokens fall into single tokens and windows, and one unit goes for all of them:
the one that is set, or the first indentation of a window.  The stream fails just where a window has an indentation
that the unit does not divide, and the error is that of the first such window.  What it gives before is everything in
front of that window, written out with the markers that lead from the depth of each line to the next; without such a
window it ends, and closes the levels that are open then. -/
theorem Stream.drain_line_by_line (cfg : Config) (ts : List Token) (hts : ∀ t ∈ ts, t.IsScanned) :
    let segs := segments cfg ts
    let unit := unitOf cfg cfg.unit segs
    let good := segs.takeWhile (Segment.fits cfg unit)
    let d := (Stream.ofConfig cfg).drain (Source.ofTokens ts)
    segs.flatMap Segment.tokens = ts ∧
      ((∃ e, d.fault = some (.indent e)) ↔ ∃ w, .window w ∈ segs ∧ 0 < w.length cfg ∧ ¬ unit ∣ w.length cfg) ∧
      d.fault = (misfit? cfg unit segs).map (fun w => .indent (w.refusal cfg unit)) ∧
      (∀ w, misfit? cfg unit segs = some w → ∃ rest, segs = good ++ .window w :: rest) ∧
      d.tokens = writtenAll cfg unit [] good ++
        (if misfit? cfg unit segs = none then (openedBehindAll cfg unit [] good).map cfg.kinds.closing else []) := by
  intro segs unit good d
  obtain ⟨htokens, hfault, -⟩ := gives_layout cfg none ts hts cfg.unit []
  obtain ⟨hwritten, hmisfit⟩ := layout_eq cfg segs cfg.unit []
  replace hfault : d.fault = (misfit? cfg unit segs).map (fun w => .indent (w.refusal cfg unit)) := by
    rw [← hmisfit, ← hfault, Source.ofTokensUntil, Option.map_none, Option.toList_none, List.append_nil]
    rfl
  refine ⟨tokens_segments cfg ts, ?_, hfault, fun w => eq_append_of_misfit?, ?_⟩
  · have hsome : (∃ e, d.fault = some (.indent e)) ↔ misfit? cfg unit segs ≠ none := by
      rw [hfault]
      cases misfit? cfg unit segs with
      | none => simp
      | some w => simp
    rw [hsome, misfit?_ne_none_iff]
    constructor
    · rintro ⟨w, hw, hd⟩
      exact ⟨w, hw, Nat.pos_of_ne_zero (fun h0 => hd (h0 ▸ Nat.dvd_zero unit)), hd⟩
    · rintro ⟨w, hw, -, hd⟩
      exact ⟨w, hw, hd⟩
  · rw [← hwritten, ← htokens, Source.ofTokensUntil, Option.map_none, Option.toList_none, List.append_nil]
    rfl

/-- Two levels of four columns, and a line between them. -/
def misalignedTokens : List Token :=
  [.inColumn "WORD" "a" 1, .inColumn "NL" "\n" 2, .inColumn "WS" "    " 1, .inColumn "WORD" "b" 5,
    .inColumn "NL" "\n" 6, .inColumn "NL" "\n        " 1, .inColumn "WORD" "c" 9, .inColumn "NL" "\n" 10,
    .inColumn "WORD" "d" 7, .inColumn "WORD" "e" 8]

theorem segments_misaligned : segments (wordConfig .before 0) misalignedTokens =
    [.token (.inColumn "WORD" "a" 1),
      .window ⟨.inColumn "NL" "\n" 2, [.inColumn "WS" "    " 1], some (.inColumn "WORD" "b" 5)⟩,
      .window ⟨.inColumn "NL" "\n" 6, [.inColumn "NL" "\n        " 1], some (.inColumn "WORD" "c" 9)⟩,
      .window ⟨.inColumn "NL" "\n" 10, [], some (.inColumn "WORD" "d" 7)⟩, .token (.inColumn "WORD" "e" 8)] := by
  have hbreak (text : String) (column : Int) :
      (wordConfig .before 0).classify (.inColumn "NL" text column) = .newline := rfl
  have hspace (text : String) (column : Int) :
      (wordConfig .before 0).classify (.inColumn "WS" text column) = .whitespace := rfl
  have hword (text : String) (column : Int) :
      (wordConfig .before 0).classify (.inColumn "WORD" text column) = .other := rfl
  simp [misalignedTokens, segments, Config.isGap, hbreak, hspace, hword]

theorem Stream.drain_line_by_line_misaligned :
    (∀ t ∈ misalignedTokens, t.IsScanned) ∧
      let d := (Stream.ofConfig (wordConfig .before 0)).drain (Source.ofTokens misalignedTokens)
      d.fault = some (.indent ⟨.int 6, .int 4, .null, .int 7⟩) ∧
        d.tokens =
          [.inColumn "WORD" "a" 1, .inColumn "NL" "\n" 2, .inColumn "WS" "    " 1,
            .opening wordKinds 4 (.inColumn "WORD" "b" 5) 0, .inColumn "WORD" "b" 5,
            .inColumn "NL" "\n" 6, .inColumn "NL" "\n        " 1,
            .opening wordKinds 4 (.inColumn "WORD" "c" 9) 1, .inColumn "WORD" "c" 9] := by
  have hts : ∀ t ∈ misalignedTokens, t.IsScanned := by
    intro t ht
    simp only [misalignedTokens, List.mem_cons, List.not_mem_nil, or_false] at ht
    rcases ht with rfl | rfl | rfl | rfl | rfl | rfl | rfl | rfl | rfl | rfl <;> exact Token.isScanned_inColumn _ _ _
  obtain ⟨-, -, hfault, -, htokens⟩ := Stream.drain_line_by_line (wordConfig .before 0) misalignedTokens hts
  rw [segments_misaligned] at hfault htokens
  exact ⟨hts, hfault.trans (by rfl), htokens.trans (by decide +kernel)⟩

end Offside
