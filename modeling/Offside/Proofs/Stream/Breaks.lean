import Offside.Proofs.Stream.Layout
/-!
# Behind a line break

What comes behind a line break is laid out as if the tokens began there, with the levels that are open by then
(`layout_behind_break`): a window looks at the line breaks and the white space in front of its last line only to write
them down.

So an unindented token behind a line break closes all levels, as the end does, and the layouts on both sides are put
together (`layout_append`).  And a line of nothing but white space behind a line break is written down there, and changes
nothing else (`layout_insert`).
-/
namespace Offside

/-- The blank lines of a window that are written out. -/
def Config.keptGap (cfg : Config) (ts : List Token) : List Token :=
  match cfg.policy with
  | .skip => ts.filter (fun t => !cfg.isWhitespace t)
  | .before | .after => ts

section
variable {cfg : Config}

@[simp]
theorem Config.keptGap_nil : cfg.keptGap [] = [] := by
  unfold keptGap
  cases cfg.policy <;> rfl

theorem Config.keptGap_append (ts us : List Token) : cfg.keptGap (ts ++ us) = cfg.keptGap ts ++ cfg.keptGap us := by
  unfold keptGap
  cases cfg.policy with
  | before | after => rfl
  | skip => exact List.filter_append ..

theorem Config.keptGap_newline {t : Token} (hc : cfg.classify t = .newline) (ts : List Token) :
    cfg.keptGap (t :: ts) = t :: cfg.keptGap ts := by
  unfold keptGap
  cases cfg.policy with
  | before | after => rfl
  | skip => exact List.filter_cons_of_pos (by simp [isWhitespace_of_newline hc])

/-! ## Windows -/

theorem isGap_of_newline {t : Token} (hc : cfg.classify t = .newline) : cfg.isGap t = true := by
  simp [Config.isGap, hc]

theorem Window.length_congr {w w' : Window} (hcontent : w.content = w'.content) (hindent : w.indent cfg = w'.indent cfg)
    (hcarried : (w.lastBreak cfg).carriedIndent = (w'.lastBreak cfg).carriedIndent) : w.length cfg = w'.length cfg := by
  simp only [length, hcontent, hindent, hcarried]

/-- A window is written out as its blank lines, and then as the window at the last line break of these. -/
theorem Window.written_cons_blank {newline t : Token} (hn : cfg.classify newline = .newline)
    (ht : cfg.classify t = .newline) (front gap : List Token) (content : Option Token) :
    let w : Window := ⟨newline, front ++ t :: gap, content⟩
    let w' : Window := ⟨t, gap, content⟩
    w.length cfg = w'.length cfg ∧ ∀ unit opened,
      w.written cfg unit opened = cfg.keptGap (newline :: front) ++ w'.written cfg unit opened := by
  intro w w'
  obtain ⟨hblank, hindent, hbreak⟩ : w.blank cfg = front ++ t :: w'.blank cfg ∧ w.indent cfg = w'.indent cfg ∧
      w.lastBreak cfg = w'.lastBreak cfg := Window.cons_blank newline front ht gap content
  have hlength : w.length cfg = w'.length cfg := length_congr rfl hindent (congrArg _ hbreak)
  refine ⟨hlength, fun unit opened => ?_⟩
  rw [Config.keptGap_newline hn]
  unfold written Config.keptGap
  rw [hlength, hblank, hindent]
  cases cfg.policy with
  | before | after => simp [w, w']
  | skip => simp [w, w', isWhitespace_of_newline ht]

/-- Which of two line breaks a window begins with shows in that line break alone, if neither carries an indentation. -/
theorem Window.written_of_break (cfg : Config) {newline newline' : Token} (hn : newline.carriedIndent = 0)
    (hn' : newline'.carriedIndent = 0) (gap : List Token) (content : Option Token) :
    let w : Window := ⟨newline, gap, content⟩
    let w' : Window := ⟨newline', gap, content⟩
    w'.length cfg = w.length cfg ∧ ∀ unit opened, ∃ rest,
      w.written cfg unit opened = newline :: rest ∧ w'.written cfg unit opened = newline' :: rest := by
  intro w w'
  have hcarried : (w'.lastBreak cfg).carriedIndent = (w.lastBreak cfg).carriedIndent := by
    have hblank : w'.blank cfg = w.blank cfg := rfl
    rw [lastBreak, lastBreak, hblank]
    cases (w.blank cfg).getLast? with
    | none => exact hn'.trans hn.symm
    | some t => rfl
  have hlength : w'.length cfg = w.length cfg := length_congr rfl rfl hcarried
  refine ⟨hlength, fun unit opened => ⟨(w.written cfg unit opened).tail, ?_, ?_⟩⟩
  · unfold written
    cases cfg.policy <;> rfl
  · unfold written
    rw [hlength]
    cases cfg.policy <;> rfl

/-- Windows with one content and one indentation do the same to a layout, but for what is written out. -/
theorem layout_window_alike (w w' : Window) (hcontent : w'.content = w.content) (hlength : w'.length cfg = w.length cfg)
    (failure : Option Fault) (unit : Nat) (opened : List Token) (segs : List Segment) :
    let l := layout cfg failure unit opened (.window w :: segs)
    let l' := layout cfg failure unit opened (.window w' :: segs)
    l'.fault = l.fault ∧ (l.fault = none → ∃ fixed rest,
      l.tokens = w.written cfg fixed opened ++ rest ∧ l'.tokens = w'.written cfg fixed opened ++ rest) := by
  by_cases hopen : w.content ≠ none ∨ failure = none
  · have hopen' : w'.content ≠ none ∨ failure = none := by rwa [hcontent]
    rw [layout_window hopen, layout_window hopen']
    dsimp only
    rw [Window.openedBehind, Window.openedBehind, Window.refusal, Window.refusal, hlength, hcontent]
    generalize fixedBy unit (w.length cfg) = fixed
    by_cases hd : w.length cfg % fixed = 0
    · rw [if_pos hd, if_pos hd]
      exact ⟨rfl, fun _ => ⟨fixed, _, rfl, rfl⟩⟩
    · rw [if_neg hd, if_neg hd]
      exact ⟨rfl, fun hnone => absurd hnone (Option.some_ne_none _)⟩
  · have hopen' : ¬ (w'.content ≠ none ∨ failure = none) := by rwa [hcontent]
    rw [layout_window_cut hopen, layout_window_cut hopen']
    refine ⟨rfl, fun hfault => absurd (.inr hfault) hopen⟩

/-! ## Line breaks -/

/-- **What comes behind a line break is laid out as if the tokens began there**, unless what is in front of it is
refused already.  The induction is on how the tokens in front fall into segments; the last of their windows may have
come to no content, and then it takes in the line break and what follows. -/
theorem layout_behind_break {newline : Token} (hn : cfg.classify newline = .newline) (front : List Token) :
    ∀ (unit : Nat) (opened : List Token),
    (∃ f, ∀ failure rest, (layout cfg failure unit opened (segments cfg (front ++ newline :: rest))).fault = some f) ∨
      ∃ given unit' opened', (unit ≠ 0 → unit' = unit) ∧ ∀ failure rest,
        let l := layout cfg failure unit opened (segments cfg (front ++ newline :: rest))
        let l' := layout cfg failure unit' opened' (segments cfg (newline :: rest))
        l.fault = l'.fault ∧ (l.fault = none → l.tokens = given ++ l'.tokens) := by
  fun_induction segments cfg front with
  | case1 => exact fun unit opened => .inr ⟨[], unit, opened, fun _ => rfl, fun _ _ => ⟨rfl, fun _ => rfl⟩⟩
  | case3 t ts hc ih =>
    intro unit opened
    have hcons (failure : Option Fault) (rest : List Token) :
        layout cfg failure unit opened (segments cfg (t :: ts ++ newline :: rest)) =
          (layout cfg failure unit opened (segments cfg (ts ++ newline :: rest))).behind [t] := by
      rw [List.cons_append, segments_of_not_newline hc, layout]
    rcases ih unit opened with ⟨f, hf⟩ | ⟨given, unit', opened', hunit, hrest⟩
    · refine .inl ⟨f, fun failure rest => ?_⟩
      rw [hcons]
      exact hf failure rest
    · refine .inr ⟨t :: given, unit', opened', hunit, fun failure rest => ?_⟩
      obtain ⟨hfault, htokens⟩ := hrest failure rest
      rw [hcons]
      exact ⟨hfault, fun hnone => congrArg (t :: ·) (htokens hnone)⟩
  | case2 t ts hc ih =>
    intro unit opened
    cases hdrop : ts.dropWhile cfg.isGap with
    | nil =>
      -- the window at `t` goes on across the line break
      have hgap : ∀ u ∈ ts, cfg.isGap u = true := List.dropWhile_eq_nil_iff.1 hdrop
      refine .inr ⟨cfg.keptGap (t :: ts), unit, opened, fun _ => rfl, fun failure rest => ?_⟩
      let w : Window := ⟨t, ts ++ newline :: rest.takeWhile cfg.isGap, (rest.dropWhile cfg.isGap).head?⟩
      let w' : Window := ⟨newline, rest.takeWhile cfg.isGap, (rest.dropWhile cfg.isGap).head?⟩
      have hsegs : segments cfg (t :: ts ++ newline :: rest) =
          .window w :: segments cfg (rest.dropWhile cfg.isGap).tail := by
        rw [List.cons_append, segments_of_newline hc, List.takeWhile_append_of_pos hgap,
          List.dropWhile_append_of_pos hgap, List.takeWhile_cons_of_pos (isGap_of_newline hn),
          List.dropWhile_cons_of_pos (isGap_of_newline hn)]
      obtain ⟨hlength, hwritten⟩ : w.length cfg = w'.length cfg ∧ ∀ unit opened, w.written cfg unit opened =
          cfg.keptGap (t :: ts) ++ w'.written cfg unit opened := Window.written_cons_blank hc hn ts _ _
      rw [hsegs, segments_of_newline hn]
      obtain ⟨hfault, htokens⟩ := layout_window_alike w w' rfl hlength.symm failure unit opened
        (segments cfg (rest.dropWhile cfg.isGap).tail)
      refine ⟨hfault.symm, fun hnone => ?_⟩
      obtain ⟨fixed, more, htokens, htokens'⟩ := htokens hnone
      rw [htokens, hwritten, List.append_assoc]
      exact congrArg (cfg.keptGap (t :: ts) ++ ·) htokens'.symm
    | cons c more =>
      have hmem : c ∈ ts := (List.dropWhile_sublist _).subset (hdrop ▸ List.mem_cons_self)
      have hcontent : cfg.isGap c = false := head_dropWhile cfg.isGap ts c (by rw [hdrop]; rfl)
      rw [hdrop, List.tail_cons] at ih
      let w : Window := ⟨t, ts.takeWhile cfg.isGap, some c⟩
      let fixed := fixedBy unit (w.length cfg)
      have hfixed : unit ≠ 0 → fixed = unit := fun h0 => if_neg h0
      have hcons (failure : Option Fault) (rest : List Token) :
          layout cfg failure unit opened (segments cfg (t :: ts ++ newline :: rest)) =
            if w.length cfg % fixed = 0 then
              (layout cfg failure fixed (w.openedBehind cfg fixed opened) (segments cfg (more ++ newline :: rest))).behind
                (w.written cfg fixed opened)
            else ⟨[], some (.indent (w.refusal cfg fixed)), .counted cfg.kinds unit opened⟩ := by
        rw [List.cons_append, segments_of_newline hc, takeWhile_append_of_mem hmem hcontent,
          dropWhile_append_of_mem hmem hcontent, hdrop]
        have hopen : w.content ≠ none ∨ failure = none := .inl (Option.some_ne_none c)
        exact layout_window hopen unit opened _
      by_cases hd : w.length cfg % fixed = 0
      · rcases ih fixed (w.openedBehind cfg fixed opened) with ⟨f, hf⟩ | ⟨given, unit', opened', hunit, hrest⟩
        · refine .inl ⟨f, fun failure rest => ?_⟩
          rw [hcons, if_pos hd]
          exact hf failure rest
        · refine .inr ⟨w.written cfg fixed opened ++ given, unit', opened', fun h0 => ?_, fun failure rest => ?_⟩
          · rw [hunit (by rw [hfixed h0]; exact h0), hfixed h0]
          · obtain ⟨hfault, htokens⟩ := hrest failure rest
            rw [hcons, if_pos hd]
            refine ⟨hfault, fun hnone => ?_⟩
            rw [Layout.behind, htokens hnone, List.append_assoc]
      · refine .inl ⟨.indent (w.refusal cfg fixed), fun failure rest => ?_⟩
        rw [hcons, if_neg hd]

/-- An unindented line closes every level, and so does the end. -/
theorem layout_window_unindented (newline : Token) {content : Option Token} {failure : Option Fault}
    (hopen : content ≠ none ∨ failure = none)
    (hlength : Window.length cfg ⟨newline, [], content⟩ = 0) (unit : Nat) (opened : List Token) (segs : List Segment) :
    layout cfg failure unit opened (.window ⟨newline, [], content⟩ :: segs) =
      (layout cfg failure unit [] segs).behind (newline :: opened.map cfg.kinds.closing ++ content.toList) := by
  let w : Window := ⟨newline, [], content⟩
  have hopen : w.content ≠ none ∨ failure = none := hopen
  rw [layout_window hopen]
  dsimp only
  rw [Window.openedBehind, Window.written, hlength, fixedBy_zero, Nat.zero_mod, if_pos rfl, Nat.zero_div, openedAt_zero,
    markersTo_zero]
  have hblank : Window.blank cfg ⟨newline, [], content⟩ = [] := rfl
  have hindent : Window.indent cfg ⟨newline, [], content⟩ = [] := rfl
  rw [hblank, hindent]
  cases cfg.policy <;> simp [w]

section
variable {newline content : Token} (hn : cfg.classify newline = .newline)
include hn

/-- A line break at the end closes every level. -/
theorem layout_break_end (unit : Nat) (opened : List Token) :
    layout cfg none unit opened (segments cfg [newline]) =
      (layout cfg none unit [] []).behind (newline :: opened.map cfg.kinds.closing) := by
  have hlength : Window.length cfg ⟨newline, [], none⟩ = 0 := rfl
  have hwindow := layout_window_unindented newline (.inr rfl) hlength unit opened []
  rw [segments_of_newline hn, List.takeWhile_nil, List.dropWhile_nil, List.tail_nil, segments]
  simpa using hwindow

variable (hcarried : newline.carriedIndent = 0) (hc : cfg.classify content = .other)
  (hcolumn : content.columnsBefore = 0)
include hcarried hc hcolumn

/-- A line break in front of an unindented token closes every level, and then it is as if the tokens began there. -/
theorem layout_break_unindented (failure : Option Fault) (unit : Nat) (opened rest : List Token) :
    layout cfg failure unit opened (segments cfg (newline :: content :: rest)) =
      (layout cfg failure unit [] (segments cfg (content :: rest))).behind
        (newline :: opened.map cfg.kinds.closing) := by
  have hlength : Window.length cfg ⟨newline, [], some content⟩ = 0 := by
    rw [Window.length]
    have hlast : Window.lastBreak cfg ⟨newline, [], some content⟩ = newline := rfl
    have hindent : Window.indent cfg ⟨newline, [], some content⟩ = [] := rfl
    dsimp only
    rw [hlast, hindent, hcarried, if_pos ⟨rfl, rfl⟩, hcolumn]
  have hopen : some content ≠ none ∨ failure = none := .inl (Option.some_ne_none content)
  have hnotgap : cfg.isGap content = false := by simp [Config.isGap, hc]
  rw [segments_of_newline hn, List.takeWhile_cons_of_neg (by simp [hnotgap]),
    List.dropWhile_cons_of_neg (by simp [hnotgap]), List.head?_cons, List.tail_cons,
    layout_window_unindented newline hopen hlength, segments_of_not_newline (by rw [hc]; decide), layout]
  simp [Layout.behind]

/-- **Layouts are put together at a line break that an unindented token follows**, where the unit is fixed.  If the
former one is refused, nothing comes of the latter. -/
theorem layout_append {unit : Nat} (hunit : unit ≠ 0) (failure : Option Fault) (front rest : List Token) :
    let first := layout cfg none unit [] (segments cfg (front ++ [newline]))
    let second := layout cfg failure unit [] (segments cfg (content :: rest))
    let both := layout cfg failure unit [] (segments cfg (front ++ newline :: content :: rest))
    (∀ f, first.fault = some f → both.fault = some f) ∧
      (first.fault = none → both.fault = second.fault ∧
        (second.fault = none → both.tokens = first.tokens ++ second.tokens)) := by
  intro first second both
  rcases layout_behind_break hn front unit [] with ⟨f, hf⟩ | ⟨given, unit', opened', hunit', hrest⟩
  · have hfirst : first.fault = some f := hf none []
    have hboth : both.fault = some f := hf failure (content :: rest)
    rw [hfirst, hboth]
    exact ⟨fun g hg => hg, fun hnone => absurd hnone (Option.some_ne_none f)⟩
  · obtain rfl := hunit' hunit
    obtain ⟨hfault, htokens⟩ := hrest none []
    obtain ⟨hfault', htokens'⟩ := hrest failure (content :: rest)
    rw [layout_break_end hn] at hfault htokens
    rw [layout_break_unindented hn hcarried hc hcolumn] at hfault' htokens'
    have hfirst : first.fault = none := hfault
    have hboth : both.fault = second.fault := hfault'
    refine ⟨fun f hf => absurd (hf.symm.trans hfirst) (Option.some_ne_none f), fun _ => ⟨hboth, fun hnone => ?_⟩⟩
    have hgiven : first.tokens = given ++ newline :: opened'.map cfg.kinds.closing := by
      simpa [Layout.behind, layout] using htokens hfirst
    rw [hgiven, List.append_assoc]
    exact htokens' (hboth.trans hnone)

end

/-- **A blank line behind a line break is written down there and changes nothing else.** -/
theorem layout_insert {newline blank : Token} (hn : cfg.classify newline = .newline)
    (hcarried : newline.carriedIndent = 0) (hb : cfg.classify blank = .newline) (hcarried' : blank.carriedIndent = 0)
    {whitespace : List Token} (hw : ∀ t ∈ whitespace, cfg.classify t = .whitespace) (failure : Option Fault)
    (unit : Nat) (front rest : List Token) :
    let l := layout cfg failure unit [] (segments cfg (front ++ newline :: rest))
    let l' := layout cfg failure unit [] (segments cfg (front ++ newline :: (whitespace ++ blank :: rest)))
    l'.fault = l.fault ∧ (l.fault = none → ∃ before after, l.tokens = before ++ newline :: after ∧
      l'.tokens = before ++ newline :: (cfg.keptGap (whitespace ++ [blank]) ++ after)) := by
  intro l l'
  rcases layout_behind_break hn front unit [] with ⟨f, hf⟩ | ⟨given, unit', opened', -, hrest⟩
  · have hfault : l.fault = some f := hf failure rest
    have hfault' : l'.fault = some f := hf failure (whitespace ++ blank :: rest)
    rw [hfault, hfault']
    exact ⟨rfl, fun hnone => absurd hnone (Option.some_ne_none f)⟩
  · obtain ⟨hfault, htokens⟩ := hrest failure rest
    obtain ⟨hfault', htokens'⟩ := hrest failure (whitespace ++ blank :: rest)
    have hgap : ∀ t ∈ whitespace, cfg.isGap t = true := fun t ht => by simp [Config.isGap, hw t ht]
    have hsegs : segments cfg (newline :: (whitespace ++ blank :: rest)) =
        .window ⟨newline, whitespace ++ blank :: rest.takeWhile cfg.isGap, (rest.dropWhile cfg.isGap).head?⟩ ::
          segments cfg (rest.dropWhile cfg.isGap).tail := by
      rw [segments_of_newline hn, List.takeWhile_append_of_pos hgap, List.dropWhile_append_of_pos hgap,
        List.takeWhile_cons_of_pos (isGap_of_newline hb), List.dropWhile_cons_of_pos (isGap_of_newline hb)]
    rw [segments_of_newline hn] at hfault htokens
    rw [hsegs] at hfault' htokens'
    revert hfault htokens hfault' htokens'
    generalize rest.takeWhile cfg.isGap = gap
    generalize (rest.dropWhile cfg.isGap).head? = content
    intro hfault htokens hfault' htokens'
    obtain ⟨hlength, hwritten⟩ := Window.written_cons_blank hn hb whitespace gap content
    obtain ⟨hlength', hbreak⟩ := Window.written_of_break cfg hcarried hcarried' gap content
    obtain ⟨hsame, halike⟩ := layout_window_alike ⟨newline, gap, content⟩
      ⟨newline, whitespace ++ blank :: gap, content⟩ rfl (hlength.trans hlength') failure unit' opened'
      (segments cfg (rest.dropWhile cfg.isGap).tail)
    have hboth : l'.fault = l.fault := hfault'.trans (hsame.trans hfault.symm)
    refine ⟨hboth, fun hnone => ?_⟩
    obtain ⟨fixed, more, htokens1, htokens2⟩ := halike (hfault.symm.trans hnone)
    obtain ⟨written, hwritten1, hwritten2⟩ := hbreak fixed opened'
    refine ⟨given, written ++ more, ?_, ?_⟩
    · refine (htokens hnone).trans ?_
      rw [htokens1, hwritten1, List.cons_append]
    · refine (htokens' (hboth.trans hnone)).trans ?_
      rw [htokens2, hwritten, hwritten2, Config.keptGap_newline hn, Config.keptGap_append, Config.keptGap_newline hb]
      simp

end
end Offside
