import Offside.Proofs.Stream.Draining
import Offside.Proofs.Stream.Windows
/-!
# The layout of a list of tokens

What a stream gives over a finite list of tokens, said without a buffer and without looking ahead: the list is cut into
single tokens and windows, and each window is written out with the markers that its line calls for (`layout`).  The
stream gives just that (`gives_layout`), whether its source ends behind the tokens or fails there; in the latter case
the window that the failure cuts off is lost.
-/
namespace Offside

namespace Window

variable (cfg : Config) (unit : Nat) (opened : List Token)

/-- A window with its markers, in the order of the policy. -/
def written (w : Window) : List Token :=
  let markers := markersTo cfg.kinds unit (w.length cfg / unit) opened w.content
  match cfg.policy with
  | .before => w.newline :: w.blank cfg ++ (w.indent cfg ++ markers) ++ w.content.toList
  | .after => w.newline :: w.blank cfg ++ (markers ++ w.indent cfg) ++ w.content.toList
  | .skip => w.newline :: (w.blank cfg).filter (fun t => !cfg.isWhitespace t) ++ markers ++ w.content.toList

/-- The opening markers of the levels that are open behind a window. -/
def openedBehind (w : Window) : List Token :=
  openedAt cfg.kinds unit (w.length cfg / unit) opened w.content

/-- The error of an indentation that the unit does not divide. -/
def refusal (w : Window) : IndentError :=
  ⟨.int (w.length cfg), .int unit, w.content.elim .null (·.start.line), w.content.elim .null (·.start.column)⟩

end Window

/-- The layout of some segments with a unit so far and some levels open, in a source that ends behind them or fails
there. -/
def layout (cfg : Config) (failure : Option Fault) (unit : Nat) (opened : List Token) : List Segment → Layout
  | [] =>
    match failure with
    | none => ⟨opened.map cfg.kinds.closing, none, .counted cfg.kinds unit []⟩
    | some f => ⟨[], some f, .counted cfg.kinds unit opened⟩
  | .token t :: segs => (layout cfg failure unit opened segs).behind [t]
  | .window w :: segs =>
    let fixed := fixedBy unit (w.length cfg)
    match w.content, failure with
    | none, some f => ⟨[], some f, .counted cfg.kinds unit opened⟩
    | _, _ =>
      if w.length cfg % fixed = 0 then
        (layout cfg failure fixed (w.openedBehind cfg fixed opened) segs).behind (w.written cfg fixed opened)
      else ⟨[], some (.indent (w.refusal cfg fixed)), .counted cfg.kinds unit opened⟩

theorem Window.length_of_end {cfg : Config} {w : Window} (h : w.content = none) : w.length cfg = 0 := by
  rw [length, h]

theorem layout_window {cfg : Config} {failure : Option Fault} {w : Window} (h : w.content ≠ none ∨ failure = none)
    (unit : Nat) (opened : List Token) (segs : List Segment) : layout cfg failure unit opened (.window w :: segs) =
      let fixed := fixedBy unit (w.length cfg)
      if w.length cfg % fixed = 0 then
        (layout cfg failure fixed (w.openedBehind cfg fixed opened) segs).behind (w.written cfg fixed opened)
      else ⟨[], some (.indent (w.refusal cfg fixed)), .counted cfg.kinds unit opened⟩ := by
  rcases h with h | rfl
  · obtain ⟨t, ht⟩ := Option.ne_none_iff_exists'.1 h
    simp only [layout, ht]
  · cases hc : w.content <;> simp only [layout, hc]

/-- A window without content whose source fails is not written out. -/
theorem layout_window_cut {cfg : Config} {failure : Option Fault} {w : Window} (h : ¬ (w.content ≠ none ∨ failure = none))
    (unit : Nat) (opened : List Token) (segs : List Segment) : layout cfg failure unit opened (.window w :: segs) =
      ⟨[], failure, .counted cfg.kinds unit opened⟩ := by
  push Not at h
  obtain ⟨hcontent, hfailure⟩ := h
  obtain ⟨f, rfl⟩ := Option.ne_none_iff_exists'.1 hfailure
  simp only [layout, hcontent]

theorem Window.mem_written {cfg : Config} {w : Window} {unit : Nat} {opened : List Token} {t : Token}
    (ht : t ∈ w.written cfg unit opened) :
    t ∈ w.tokens ∨ t ∈ markersTo cfg.kinds unit (w.length cfg / unit) opened w.content := by
  have hgap : w.gap = w.blank cfg ++ w.indent cfg := (List.rdropWhile_append_rtakeWhile ..).symm
  simp only [tokens, hgap, List.mem_cons, List.mem_append]
  unfold written at ht
  cases hp : cfg.policy <;>
    simp only [hp, List.cons_append, List.mem_cons, List.mem_append, List.mem_filter] at ht <;> tauto

/-- What is so of the tokens of a source and outlives the making of markers is so of all that comes out. -/
theorem forall_layout {cfg : Config} {p : Token → Prop} (hclosing : ∀ m, p m → p (cfg.kinds.closing m))
    (hopening : ∀ t, p t → ∀ unit level, p (t.opening cfg.kinds unit level)) (failure : Option Fault)
    {segs : List Segment} : (∀ seg ∈ segs, ∀ t ∈ seg.tokens, p t) → ∀ (unit : Nat) {opened : List Token},
      (∀ m ∈ opened, p m) → ∀ t ∈ (layout cfg failure unit opened segs).tokens, p t := by
  induction segs with
  | nil =>
    intro _ unit opened hopened t ht
    cases failure with
    | none =>
      obtain ⟨o, ho, rfl⟩ := List.mem_map.1 ht
      exact hclosing o (hopened o ho)
    | some f => cases ht
  | cons seg segs ih =>
    intro hsegs unit opened hopened t ht
    obtain ⟨hseg, hrest⟩ := List.forall_mem_cons.1 hsegs
    cases seg with
    | token u =>
      rcases List.mem_cons.1 ht with rfl | ht
      · exact hseg t List.mem_cons_self
      · exact ih hrest unit hopened t ht
    | window w =>
      have hcontent : ∀ c ∈ w.content, ∀ level unit, p (c.opening cfg.kinds unit level) := fun c hc level unit =>
        hopening c (hseg c (List.mem_cons_of_mem _ (List.mem_append_right _ (by simpa using hc)))) unit level
      by_cases hend : w.content ≠ none ∨ failure = none
      · rw [layout_window hend] at ht
        dsimp only at ht
        split at ht
        · rcases List.mem_append.1 ht with ht | ht
          · rcases w.mem_written ht with ht | ht
            · exact hseg t ht
            · exact forall_markersTo cfg.kinds _ _ opened w.content (fun o ho => hclosing o (hopened o ho))
                (fun c hc level => hcontent c hc level _) t ht
          · have hbehind := forall_openedAt cfg.kinds (fixedBy unit (w.length cfg))
              (w.length cfg / fixedBy unit (w.length cfg)) w.content hopened fun c hc level => hcontent c hc level _
            exact ih hrest _ hbehind t ht
        · cases ht
      · rw [layout_window_cut hend] at ht
        cases ht

/-- A layout over a source that fails does not end well. -/
theorem fault_layout_ne_none (cfg : Config) (f : Fault) (segs : List Segment) : ∀ (unit : Nat) (opened : List Token),
    (layout cfg (some f) unit opened segs).fault ≠ none := by
  induction segs with
  | nil => exact fun _ _ => Option.some_ne_none f
  | cons seg segs ih =>
    intro unit opened
    cases seg with
    | token t => exact ih unit opened
    | window w =>
      cases hc : w.content with
      | none => simp [layout, hc]
      | some t =>
        simp only [layout, hc]
        by_cases hd : w.length cfg % fixedBy unit (w.length cfg) = 0
        · rw [if_pos hd]
          exact ih _ _
        · rw [if_neg hd]
          exact Option.some_ne_none _

theorem arrange_eq_written {cfg : Config} {w : Window} {lines : List (List Token × Token)}
    (h : BlankOf cfg lines (w.blank cfg)) (unit : Nat) (opened : List Token) (length : Datum) :
    arrange cfg.policy w.newline ⟨length, lines, w.indent cfg, w.content⟩
      (markersTo cfg.kinds unit (w.length cfg / unit) opened w.content) = w.written cfg unit opened := by
  unfold arrange Window.written
  cases cfg.policy with
  | before => simp [h.1]
  | after => simp [h.1]
  | skip => simp [h.2]

namespace Stream

/-- A stream at work, with nothing held back. -/
def counted (cfg : Config) (unit : Nat) (opened : List Token) : Stream :=
  { ofConfig cfg with levels := .counted cfg.kinds unit opened }

variable {cfg : Config} (unit : Nat) (opened : List Token)

theorem next_counted (source : Source) :
    (counted cfg unit opened).next source = (counted cfg unit opened).pull cfg source := rfl

theorem next_counted_newline {t : Token} (hc : cfg.classify t = .newline) (source : Source) :
    (counted cfg unit opened).next (.token t :: source) =
      match scanLine cfg t source with
      | .broken f rest => ⟨.fault f, counted cfg unit opened, rest, []⟩
      | .found scan ended rest => { counted cfg unit opened with exhausted := ended }.settle cfg t scan rest := by
  rw [next_counted]
  exact pull_newline rfl hc source

theorem next_counted_other {t : Token} (hc : cfg.classify t ≠ .newline) (hk : cfg.knows t = true) (source : Source) :
    (counted cfg unit opened).next (.token t :: source) = ⟨.token t, counted cfg unit opened, source, []⟩ := by
  rw [next_counted, pull_passed rfl hc hk]

theorem gives_window_of_end {w : Window} {lines : List (List Token × Token)} {source rest : Source}
    (hcontent : w.content = none) (hlines : BlankOf cfg lines (w.blank cfg))
    (hnext : (counted cfg unit opened).next source =
      { counted cfg unit opened with exhausted := true }.settle cfg w.newline
        ⟨.int 0, lines, w.indent cfg, none⟩ rest) :
    (counted cfg unit opened).Gives source
      ⟨w.written cfg unit opened, none, .counted cfg.kinds unit []⟩ := by
  have hlength : w.length cfg = 0 := by simp [Window.length, hcontent]
  have hw := arrange_eq_written hlines unit opened (.int 0)
  rw [hlength, Nat.zero_div, markersTo_zero, hcontent] at hw
  rw [← hw]
  let settled : Stream :=
    { counted cfg unit [] with
      exhausted := true
      buffer := arrange cfg.policy w.newline ⟨.int 0, lines, w.indent cfg, none⟩ (opened.map cfg.kinds.closing) }
  have hg := gives_of_emit settled rfl rfl hnext (by simp [settled, arrange]) (gives_of_exhausted rfl rfl rfl rfl)
  have hclose : (counted cfg unit []).levels.closeAll = ([], .counted cfg.kinds unit []) := rfl
  simpa [settled, Layout.behind, hclose] using hg

theorem gives_window {w : Window} {t : Token} {lines : List (List Token × Token)} {source rest : Source} {l : Layout}
    (hcontent : w.content = some t) (ht : t.IsScanned) (hlines : BlankOf cfg lines (w.blank cfg))
    (hnext : (counted cfg unit opened).next source =
      (counted cfg unit opened).settle cfg w.newline ⟨.int (w.length cfg), lines, w.indent cfg, some t⟩ rest)
    (hg :
      let fixed := fixedBy unit (w.length cfg)
      (counted cfg fixed (w.openedBehind cfg fixed opened)).Gives rest l) :
    let fixed := fixedBy unit (w.length cfg)
    (counted cfg unit opened).Gives source
      (if w.length cfg % fixed = 0 then l.behind (w.written cfg fixed opened)
      else ⟨[], some (.indent (w.refusal cfg fixed)), .counted cfg.kinds unit opened⟩) := by
  intro fixed
  have hr := Levels.reconcile_counted cfg.kinds ht unit opened (w.length cfg)
  have hs : (counted cfg unit opened).levels = .counted cfg.kinds unit opened := rfl
  dsimp only at hr
  rw [show fixedBy unit (w.length cfg) = fixed from rfl] at hr
  by_cases hd : w.length cfg % fixed = 0
  · rw [if_pos hd] at hr ⊢
    have hw := arrange_eq_written hlines fixed opened (.int (w.length cfg))
    rw [hcontent] at hw
    rw [← hw]
    simp only [settle, hs, hr] at hnext
    have hopened : w.openedBehind cfg fixed opened =
        openedAt cfg.kinds fixed (w.length cfg / fixed) opened (some t) := by rw [Window.openedBehind, hcontent]
    replace hg : (counted cfg fixed (w.openedBehind cfg fixed opened)).Gives rest l := hg
    rw [hopened] at hg
    let settled : Stream :=
      { counted cfg fixed (openedAt cfg.kinds fixed (w.length cfg / fixed) opened (some t)) with
        buffer := arrange cfg.policy w.newline ⟨.int (w.length cfg), lines, w.indent cfg, some t⟩
          (markersTo cfg.kinds fixed (w.length cfg / fixed) opened (some t)) }
    exact gives_of_emit settled rfl rfl hnext (by simp [settled, arrange]) hg
  · rw [if_neg hd] at hr ⊢
    simp only [settle, hs, hr] at hnext
    have hg := gives_of_fault hnext
    simpa [Window.refusal, hcontent] using hg

theorem scanLine_window (cfg : Config) (newline : Token) (ts : List Token) (hts : ∀ t ∈ ts, t.IsScanned)
    (failure : Option Fault) :
    let w : Window := ⟨newline, ts.takeWhile cfg.isGap, (ts.dropWhile cfg.isGap).head?⟩
    let rest := Source.ofTokensUntil (ts.dropWhile cfg.isGap).tail failure
    let result := scanLine cfg newline (Source.ofTokensUntil ts failure)
    ∃ lines, BlankOf cfg lines (w.blank cfg) ∧
      (∀ t, w.content = some t → result = .found ⟨.int (w.length cfg), lines, w.indent cfg, some t⟩ false rest) ∧
      (w.content = none → failure = none → result = .found ⟨.int 0, lines, w.indent cfg, none⟩ true []) ∧
      (∀ f, w.content = none → failure = some f → result = .broken f []) := by
  intro w rest result
  obtain ⟨lines, hlines, heq⟩ := scanFrom_gap cfg
    (Source.ofTokensUntil (ts.dropWhile cfg.isGap) failure) (ts.takeWhile cfg.isGap)
    (fun t ht => List.mem_takeWhile_imp ht) newline [] (by simp)
  have hsource : Source.ofTokensUntil ts failure =
      Source.ofTokens (ts.takeWhile cfg.isGap) ++ Source.ofTokensUntil (ts.dropWhile cfg.isGap) failure := by
    rw [Source.ofTokensUntil, Source.ofTokensUntil, ← List.append_assoc, Source.ofTokens, Source.ofTokens,
      Source.ofTokens, ← List.map_append, List.takeWhile_append_dropWhile]
  -- the last line break and the white space behind it do not depend on the content
  have hresult : result = (scanFrom cfg (w.lastBreak cfg) (w.indent cfg)
      (Source.ofTokensUntil (ts.dropWhile cfg.isGap) failure)).behindLines lines := by
    simp only [result, scanLine, hsource]
    exact heq
  have hempty (hn : w.content = none) : ts.dropWhile cfg.isGap = [] := List.head?_eq_none_iff.1 hn
  refine ⟨lines, hlines, fun t ht => ?_, fun hn hf => ?_, fun f hn hf => ?_⟩
  · obtain ⟨more, hmore⟩ := List.head?_eq_some_iff.1 (show (ts.dropWhile cfg.isGap).head? = some t from ht)
    have hscanned : t.IsScanned := hts t ((List.dropWhile_sublist _).subset (hmore ▸ List.mem_cons_self))
    have hc : cfg.classify t = .other := by
      have := List.head?_dropWhile_not cfg.isGap ts
      simpa [hmore, Config.isGap] using this
    have hm : LineScan.measure (w.lastBreak cfg) (w.indent cfg) t = .ok (.int (w.length cfg)) := by
      have hw : w = ⟨newline, ts.takeWhile cfg.isGap, some t⟩ := by simp only [w, hmore, List.head?_cons]
      rw [hw]
      exact Window.measure_eq newline _ hscanned
    rw [hresult, show rest = Source.ofTokensUntil more failure by simp only [rest, hmore, List.tail_cons], hmore]
    show ScanResult.behindLines lines (scanFrom cfg _ _ (.token t :: Source.ofTokensUntil more failure)) = _
    have hk : cfg.classOf t = .ok .other := Config.classOf_eq_ok_iff.2 ⟨Config.knows_of_isSingle hscanned.single, hc⟩
    rw [scanFrom_content _ _ _ hk hm]
    simp only [ScanResult.behindLines, List.append_nil]
  · rw [hresult, hempty hn, hf]
    simp [Source.ofTokensUntil, Source.ofTokens, scanFrom, ScanResult.behindLines]
  · rw [hresult, hempty hn, hf]
    simp [Source.ofTokensUntil, Source.ofTokens, scanFrom, ScanResult.behindLines]

/-- **A stream gives the layout of its tokens**, whether its source ends behind them or fails there. -/
theorem gives_layout (cfg : Config) (failure : Option Fault) (ts : List Token) : (∀ t ∈ ts, t.IsScanned) →
    ∀ unit opened, (counted cfg unit opened).Gives (Source.ofTokensUntil ts failure)
      (layout cfg failure unit opened (segments cfg ts)) := by
  fun_induction segments cfg ts with
  | case1 =>
    intro _ unit opened
    cases failure with
    | none =>
      have hover : { counted cfg unit opened with exhausted := true }.Gives []
          ⟨opened.map cfg.kinds.closing, none, .counted cfg.kinds unit []⟩ := gives_of_exhausted rfl rfl rfl rfl
      have hnext : (counted cfg unit opened).next [] = { counted cfg unit opened with exhausted := true }.next [] := rfl
      exact gives_of_next_eq hnext hover
    | some f =>
      have hnext : (counted cfg unit opened).next [.fault f] = ⟨.fault f, counted cfg unit opened, [], []⟩ := rfl
      exact gives_of_fault hnext
  | case2 t ts hc ih =>
    intro hts unit opened
    have hts' : ∀ u ∈ ts, u.IsScanned := fun u hu => hts u (List.mem_cons_of_mem _ hu)
    obtain ⟨lines, hlines, hfound, hended, hbroken⟩ := scanLine_window cfg t ts hts' failure
    have hnext := next_counted_newline unit opened hc (Source.ofTokensUntil ts failure)
    have hsub : ∀ u ∈ ts.dropWhile cfg.isGap, u.IsScanned := fun u hu =>
      hts' u ((List.dropWhile_sublist _).subset hu)
    let w : Window := ⟨t, ts.takeWhile cfg.isGap, (ts.dropWhile cfg.isGap).head?⟩
    show (counted cfg unit opened).Gives (.token t :: Source.ofTokensUntil ts failure) (layout cfg failure unit opened
      (.window w :: segments cfg (ts.dropWhile cfg.isGap).tail))
    cases hcontent : w.content with
    | some c =>
      have hct : c.IsScanned := hsub c (List.mem_of_mem_head? hcontent)
      rw [hfound c hcontent] at hnext
      have hg := gives_window (w := w) unit opened hcontent hct hlines hnext
        (ih (fun u hu => hsub u (List.mem_of_mem_tail hu)) _ _)
      simpa only [layout, hcontent] using hg
    | none =>
      cases failure with
      | some f =>
        rw [hbroken f hcontent rfl] at hnext
        simp only [layout, hcontent]
        exact gives_of_fault hnext
      | none =>
        rw [hended hcontent rfl] at hnext
        have hg := gives_window_of_end (w := w) unit opened hcontent hlines hnext
        have hnil : (ts.dropWhile cfg.isGap).tail = [] := by rw [List.head?_eq_none_iff.1 hcontent]; rfl
        have hlength : w.length cfg = 0 := by simp [Window.length, hcontent]
        have hopened : w.openedBehind cfg unit opened = [] := by simp [Window.openedBehind, hlength]
        simpa [layout, hcontent, hlength, hnil, segments, hopened, Layout.behind] using hg
  | case3 t ts hc ih =>
    intro hts unit opened
    have hk : cfg.knows t = true := Config.knows_of_isSingle (hts t List.mem_cons_self).single
    exact gives_of_token (next_counted_other unit opened hc hk _)
      (ih (fun u hu => hts u (List.mem_cons_of_mem _ hu)) unit opened)

/-- What a fresh stream gives over a source that is known by its tokens and by how it ends. -/
theorem drain_layout (cfg : Config) {failure : Option Fault} {ts : List Token} (hts : ∀ t ∈ ts, t.IsScanned)
    {source : Source} (hsource : source = Source.ofTokensUntil ts failure) :
    let d := (ofConfig cfg).drain source
    let l := layout cfg failure cfg.unit [] (segments cfg ts)
    d.tokens = l.tokens ∧ d.fault = l.fault := by
  intro d l
  obtain ⟨htokens, hfault, -⟩ := gives_layout cfg failure ts hts cfg.unit []
  rw [← htokens, ← hfault, ← hsource]
  exact ⟨rfl, rfl⟩

end Stream

end Offside
