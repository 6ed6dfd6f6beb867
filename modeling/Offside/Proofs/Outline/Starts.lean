import Mathlib.Data.List.ReduceOption
import Mathlib.Data.List.Sort
import Offside.Proofs.Outline.Segments
import Offside.Proofs.Outline.Words
/-!
# Markers by the lines of a text

All that the markers of a text come from are the lines with content behind the first line: their numbers, and how many
blanks each of them begins with (`marks_of_text`).  So two texts with such lines in common have their markers in common,
whatever their words, blanks and line breaks are, and in whatever variants and policies they are cut into tokens
(`tokenize_by_lines`).
-/
namespace Offside

/-- The line and the column of a token, which its markers have from it. -/
def Token.spot (t : Token) : Datum × Datum :=
  (t.start.line, t.start.column)

/-- What a marker says: its type and its level, its line and its column. -/
def Token.said (m : Token) : TokenType × Option Datum × Datum × Datum :=
  (m.type, m.level, m.spot)

theorem carries_spot (kinds : Kinds) : Carries kinds kinds (fun t t' => t.spot = t'.spot) (fun m m' => m.said = m'.said)
    where
  opening := by
    intro t t' h unit level
    obtain ⟨hline, hcolumn⟩ := Prod.mk.inj h
    simp only [Token.said, Token.spot, Token.opening, Token.markerAt, hline, hcolumn]
  closing := by
    intro m m' h
    simp only [Token.said, Prod.mk.injEq] at h
    show (kinds.dedent, m.level, m.spot) = (kinds.dedent, m'.level, m'.spot)
    rw [h.2.1, h.2.2]
  place := fun h => Prod.mk.inj h

/-! ## Where lines begin -/

theorem lineStarts_dropBlanks {policy : Policy} {n : Nat} : ∀ (fresh : Bool) (ts : List Token),
    lineStarts (wordConfig policy n) fresh (dropBlanks ts) = lineStarts (wordConfig policy n) fresh ts
  | _, [] => rfl
  | fresh, t :: ts => by
    by_cases ht : t.isBlank = true
    · have hdrop : dropBlanks (t :: ts) = dropBlanks ts := List.filter_cons_of_neg (by simp [ht])
      rw [hdrop, lineStarts_dropBlanks fresh ts]
      simp only [lineStarts, classify_eq_whitespace.2 ht]
    · rw [dropBlanks_cons (Bool.eq_false_iff.2 ht)]
      simp only [lineStarts, lineStarts_dropBlanks _ ts]

/-- Only at the end is there a line without a start. -/
theorem exists_lineStarts (cfg : Config) : ∀ (fresh : Bool) (ts : List Token), ∃ last, (last = [] ∨ last = [none]) ∧
    lineStarts cfg fresh ts = (lineStarts cfg fresh ts).reduceOption.map some ++ last
  | false, [] => ⟨[], .inl rfl, rfl⟩
  | true, [] => ⟨[none], .inr rfl, rfl⟩
  | fresh, t :: ts => by
    cases hc : cfg.classify t with
    | newline => simpa only [lineStarts, hc] using exists_lineStarts cfg true ts
    | whitespace => simpa only [lineStarts, hc] using exists_lineStarts cfg fresh ts
    | other =>
      obtain ⟨last, hlast, heq⟩ := exists_lineStarts cfg false ts
      cases fresh with
      | false =>
        refine ⟨last, hlast, ?_⟩
        simp only [lineStarts, hc, Bool.false_eq_true, if_false]
        exact heq
      | true =>
        refine ⟨last, hlast, ?_⟩
        simp only [lineStarts, hc, if_true]
        rw [List.reduceOption_cons_of_some, List.map_cons, List.cons_append, ← heq]

/-- A line that has no content closes what is open, and so does the end. -/
theorem marks_append_end (kinds : Kinds) (ls : List Landing) : ∀ (unit : Nat) (opened : List Token),
    marks kinds none unit opened (ls ++ [.ofStart none]) = marks kinds none unit opened ls := by
  induction ls with
  | nil =>
    intro unit opened
    simp [marks, Landing.ofStart, Marks.behind]
  | cons l ls ih =>
    intro unit opened
    rw [List.cons_append, marks, marks]
    simp only [ih]

theorem marks_lineStarts (kinds : Kinds) (cfg : Config) (ts : List Token) (unit : Nat) (opened : List Token) :
    marks kinds none unit opened ((lineStarts cfg false ts).map .ofStart) =
      marks kinds none unit opened ((lineStarts cfg false ts).reduceOption.map (fun t => .ofStart (some t))) := by
  obtain ⟨last, hlast, heq⟩ := exists_lineStarts cfg false ts
  conv_lhs => rw [heq, List.map_append, List.map_map]
  rcases hlast with rfl | rfl
  · rw [List.map_nil, List.append_nil]
    rfl
  · exact marks_append_end kinds _ unit opened

namespace Outline

def Line.spot (l : Line) : Datum × Datum :=
  (.int l.number, .int (l.leading + 1 : Nat))

theorem IsLineToken.spot_eq {l : Line} {t : Token} (h : IsLineToken l t) : t.spot = l.spot := by
  rw [Token.spot, h.line, h.column]
  rfl

/-- **The lines of scanned tokens begin where their lines with content do**, all those that a line break precedes. -/
theorem lineStarts_scanned {ls : List Line} {ts : List Token} (h : Scanned ls ts) (unit : Nat) : ∀ fresh : Bool,
    (lineStarts (config unit) fresh ts).reduceOption.map Token.spot =
      ((if fresh then ls else ls.tail).filter Line.isContent).map Line.spot := by
  -- what precedes a line matters to that line alone: behind its line break the next one is fresh
  induction h with
  | @last l ts hl hts =>
    intro fresh
    cases hts with
    | nil hw =>
      have hc : ¬ l.isContent = true := fun hc => (Line.isContent_iff hl).1 hc hw
      cases fresh with
      | false => rfl
      | true =>
        rw [if_pos rfl, List.filter_cons_of_neg hc]
        rfl
    | @one hw t ht =>
      have hc : l.isContent = true := (Line.isContent_iff hl).2 hw
      cases fresh with
      | false =>
        simp only [lineStarts, classify_line unit ht hw]
        rfl
      | true =>
        simp only [lineStarts, classify_line unit ht hw, if_true]
        rw [List.reduceOption_cons_of_some, List.map_cons, ht.spot_eq, List.filter_cons_of_pos hc]
        rfl
  | @cons l ls ts us newline hl hts hn _ ih =>
    intro fresh
    have hnewline : ∀ fresh, lineStarts (config unit) fresh (newline :: us) = lineStarts (config unit) true us :=
      fun fresh => by simp only [lineStarts, classify_break unit hn]
    have hrest := ih true
    rw [if_pos rfl] at hrest
    cases hts with
    | nil hw =>
      have hc : ¬ l.isContent = true := fun hc => (Line.isContent_iff hl).1 hc hw
      rw [List.nil_append, hnewline, hrest]
      cases fresh with
      | false => rfl
      | true => rw [if_pos rfl, List.filter_cons_of_neg hc]
    | @one hw t ht =>
      have hc : l.isContent = true := (Line.isContent_iff hl).2 hw
      cases fresh with
      | false =>
        simp only [List.singleton_append, lineStarts, classify_line unit ht hw, classify_break unit hn]
        exact hrest
      | true =>
        simp only [List.singleton_append, lineStarts, classify_line unit ht hw, classify_break unit hn, if_true]
        rw [List.reduceOption_cons_of_some, List.map_cons, hrest, List.filter_cons_of_pos hc, List.map_cons, ht.spot_eq]

/-- The lines of a text that have content, all but the first line of the text. -/
def laterLines (cs : List Char) : List Line :=
  (contentLines cs).filter (fun l => l.number ≠ 1)

theorem laterLines_eq (cs : List Char) :
    laterLines cs = (Line.numbered 1 (cs.splitOn '\n')).tail.filter Line.isContent := by
  obtain ⟨first, lines, hlines⟩ := List.exists_cons_of_ne_nil (List.splitOn_ne_nil '\n' cs)
  have hlater : ∀ l ∈ Line.numbered 2 lines, l.number ≠ 1 := fun l hl => by
    have := Line.le_number_of_mem l hl
    omega
  rw [laterLines, contentLines, hlines, Line.numbered_cons, List.tail_cons, List.filter_filter,
    List.filter_cons_of_neg (by simp)]
  exact List.filter_congr fun l hl => by simp [hlater l hl]

theorem lineStarts_of_text {text : String} (hstray : Text.hasStray text.toList = false) (policy : Policy) (n : Nat) :
    ∃ us, ScannedAlike .start text.toList us none ∧
      (lineStarts (wordConfig policy n) false us).reduceOption.map Token.spot =
        (laterLines text.toList).map Line.spot := by
  obtain ⟨ls, ws, failure, hread⟩ := scan_lines (pieces Scanner.isLineChar text.toList) .start
  obtain ⟨ts, failure', hscan, -, hfailure, hscanned⟩ := scanFrom_eq _ text.toList .start rfl rfl
  obtain ⟨us, failure'', hvariants⟩ := scan_variants (pieces Scanner.isWordChar text.toList) .start
  obtain ⟨rfl, rfl⟩ := Source.ofTokensUntil_inj (hread.lines.symm.trans hscan)
  obtain ⟨rfl, rfl⟩ := Source.ofTokensUntil_inj (hread.words.symm.trans hvariants.ignore)
  have hnone : failure = none := by
    rw [hstray] at hfailure
    exact Option.not_isSome_iff_eq_none.1 (Bool.eq_false_iff.1 hfailure)
  subst hnone
  refine ⟨us, hvariants, ?_⟩
  have halike := hread.paired.lineStarts_alike n policy n false
  rw [lineStarts_dropBlanks] at halike
  have hspots : List.Forall₂ Eq ((lineStarts (config n) false ls).reduceOption.map Token.spot)
      ((lineStarts (wordConfig policy n) false us).reduceOption.map Token.spot) := by
    rw [List.forall₂_map_left_iff, List.forall₂_map_right_iff]
    refine (List.rel_filterMap (fun _ _ h => h) halike).imp fun t u h => ?_
    rw [Token.spot, h]
    rfl
  rw [List.forall₂_eq_eq_eq] at hspots
  rw [← hspots, lineStarts_scanned (hscanned rfl) n false, laterLines_eq]
  rfl

/-! ## What markers come from -/

/-- The markers in front of some tokens that lines begin with. -/
def marksOf (n : Nat) (starts : List Token) : Marks :=
  marks wordKinds none n [] (starts.map (fun t => .ofStart (some t)))

theorem marksOf_alike {starts starts' : List Token} (h : starts.map Token.spot = starts'.map Token.spot) (n : Nat) :
    (marksOf n starts).markers.map Token.said = (marksOf n starts').markers.map Token.said ∧
      (marksOf n starts).fault = (marksOf n starts').fault := by
  have hspots : List.Forall₂ (fun t t' : Token => t.spot = t'.spot) starts starts' := by
    rwa [← List.forall₂_eq_eq_eq, List.forall₂_map_left_iff, List.forall₂_map_right_iff] at h
  have hland : List.Forall₂ (LandAlike fun t t' : Token => t.spot = t'.spot)
      (starts.map fun t => .ofStart (some t)) (starts'.map fun t => .ofStart (some t)) := by
    rw [List.forall₂_map_left_iff, List.forall₂_map_right_iff]
    refine hspots.imp fun t t' ht => ⟨?_, .some ht⟩
    obtain ⟨-, hcolumn⟩ := Prod.mk.inj ht
    simp only [Landing.ofStart, Option.elim_some, Token.columnsBefore, hcolumn]
  obtain ⟨hmarkers, hfault⟩ := marks_alike (carries_spot wordKinds) none hland n .nil
  refine ⟨?_, hfault⟩
  rwa [← List.forall₂_eq_eq_eq, List.forall₂_map_left_iff, List.forall₂_map_right_iff]

/-- **The markers of a text, and the error that ends them, come from its later lines alone**, in every variant and
policy. -/
theorem marks_of_text {text : String} (hstray : Text.hasStray text.toList = false) (variant : Variant) (policy : Policy)
    (n : Nat) : ∃ starts, starts.map Token.spot = (laterLines text.toList).map Line.spot ∧
      let d := Offside.drainText (wordConfig policy n) variant text
      d.tokens.filter Token.isMarker = (marksOf n starts).markers ∧ d.fault = (marksOf n starts).fault ∧
        ∀ f, d.fault = some f → ∃ e, f = .indent e := by
  let cfg := wordConfig policy n
  obtain ⟨us, hs, hspots⟩ := lineStarts_of_text hstray policy n
  refine ⟨_, hspots, ?_⟩
  obtain ⟨vs, hscan, hmeasured, hdrop⟩ := hs.exists_tokens policy n variant
  have hstarts : lineStarts cfg false vs = lineStarts cfg false us := by
    rw [← lineStarts_dropBlanks, hdrop, lineStarts_dropBlanks]
  have hscanned := Scanner.isScanned_of_scanFrom hscan
  obtain ⟨htokens, hfault⟩ := Stream.drain_layout cfg hscanned hscan
  have hmarks := marks_layout cfg none (unmarked_segments cfg hscanned) n (fun m (hm : m ∈ []) => nomatch hm)
  rw [landings_of_measured cfg vs hmeasured, hstarts, marks_lineStarts] at hmarks
  refine ⟨?_, hfault.trans (congrArg Marks.fault hmarks), fun f hf => ?_⟩
  · exact (congrArg (List.filter Token.isMarker) htokens).trans (congrArg Marks.markers hmarks)
  · exact (fault_layout cfg none _ n [] f (hfault.symm.trans hf)).resolve_left nofun

/-! ## Texts with the same lines -/

/-- Whether a text has a line with content of a number, and that line begins with so many blanks. -/
def HasLine (cs : List Char) (number leading : Nat) : Prop :=
  ∃ l ∈ contentLines cs, l.number = number ∧ l.leading = leading

theorem hasLine_iff {cs : List Char} {number leading : Nat} :
    HasLine cs number leading ↔ (number, leading) ∈ (contentLines cs).map (fun l => (l.number, l.leading)) := by
  simp [HasLine]

theorem Line.pairwise_numbered : ∀ (start : Nat) (lines : List (List Char)),
    (Line.numbered start lines).Pairwise (fun l m => l.number < m.number)
  | _, [] => .nil
  | start, first :: lines => by
    rw [Line.numbered_cons]
    exact .cons (fun l hl => Line.le_number_of_mem l hl) (Line.pairwise_numbered (start + 1) lines)

theorem spots_of_lines {cs cs' : List Char}
    (h : ∀ number leading, 1 < number → (HasLine cs number leading ↔ HasLine cs' number leading)) :
    (laterLines cs).map Line.spot = (laterLines cs').map Line.spot := by
  let said (l : Line) : Nat × Nat := (l.number, l.leading)
  have hsorted (cs : List Char) : ((laterLines cs).map said).Pairwise (fun x y => x.1 < y.1) :=
    List.pairwise_map.2 (((Line.pairwise_numbered 1 _).filter _).filter _)
  have hmem (cs : List Char) (x : Nat × Nat) : x ∈ (laterLines cs).map said ↔ 1 < x.1 ∧ HasLine cs x.1 x.2 := by
    rw [List.mem_map]
    constructor
    · rintro ⟨l, hl, rfl⟩
      obtain ⟨hl, hnumber⟩ := List.mem_filter.1 hl
      have hpos := Line.le_number_of_mem l (List.mem_filter.1 hl).1
      have hne : l.number ≠ 1 := of_decide_eq_true hnumber
      exact ⟨Nat.lt_of_le_of_ne hpos hne.symm, l, hl, rfl, rfl⟩
    · rintro ⟨hx, l, hl, hnumber, hleading⟩
      have hne : l.number ≠ 1 := by omega
      exact ⟨l, List.mem_filter.2 ⟨hl, decide_eq_true hne⟩, Prod.ext hnumber hleading⟩
  have hanti : Std.Antisymm (fun x y : Nat × Nat => x.1 < y.1) := ⟨fun x y hxy hyx => absurd hxy (Nat.lt_asymm hyx)⟩
  have hirrefl : Std.Irrefl (fun x y : Nat × Nat => x.1 < y.1) := ⟨fun x => Nat.lt_irrefl x.1⟩
  have hsaid : (laterLines cs).map said = (laterLines cs').map said := by
    refine (hsorted cs).eq_of_mem_iff (hsorted cs') fun x => ?_
    rw [hmem, hmem]
    exact and_congr_right fun hx => h x.1 x.2 hx
  have hspot : Line.spot = (fun x : Nat × Nat => (Datum.int x.1, Datum.int (x.2 + 1 : Nat))) ∘ said := rfl
  rw [hspot, ← List.map_map, hsaid, List.map_map]

/-- **Markers depend on the lines of a text alone**, on those behind the first line that have content.  Texts that have
the same such lines, by number and leading blanks, have the same markers at the same lines and columns, or end in the
same error: whatever their words, their kinds of blanks and line breaks, their blank lines and their first lines are,
and whatever the variants and policies. -/
theorem tokenize_by_lines {text text' : String} (hstray : Text.hasStray text.toList = false)
    (hstray' : Text.hasStray text'.toList = false)
    (hlines : ∀ number leading, 1 < number → (HasLine text.toList number leading ↔ HasLine text'.toList number leading))
    (variant variant' : Variant) (policy policy' : Policy) (unit : Nat) :
    (∃ e, tokenize text variant policy unit = .error (.indent e) ∧
        tokenize text' variant' policy' unit = .error (.indent e)) ∨
      ∃ ts ts', tokenize text variant policy unit = .ok ts ∧ tokenize text' variant' policy' unit = .ok ts' ∧
        (ts.filter Token.isMarker).map Token.said = (ts'.filter Token.isMarker).map Token.said := by
  obtain ⟨starts, hspots, hmarkers, hfault, hindent⟩ := marks_of_text hstray variant policy unit
  obtain ⟨starts', hspots', hmarkers', hfault', -⟩ := marks_of_text hstray' variant' policy' unit
  have hsame : starts.map Token.spot = starts'.map Token.spot := by
    rw [hspots, hspots', spots_of_lines hlines]
  obtain ⟨hmarks, hfaults⟩ := marksOf_alike hsame unit
  rw [← hmarkers, ← hmarkers'] at hmarks
  rw [← hfault, ← hfault'] at hfaults
  unfold tokenize Drained.toExcept
  cases hf : (Offside.drainText (wordConfig policy unit) variant text).fault with
  | some f =>
    obtain ⟨e, rfl⟩ := hindent f hf
    rw [← hfaults, hf]
    exact .inl ⟨e, rfl, rfl⟩
  | none =>
    rw [← hfaults, hf]
    exact .inr ⟨_, _, rfl, rfl, hmarks⟩

/-- Two texts that have little in common beside three lines with content, in other variants and policies. -/
theorem tokenize_by_lines_unlike :
    ∃ ts ts', tokenize " a\n\tb c\r\n\n    d\ne\x0c" .space .before 0 = .ok ts ∧
      tokenize "x\n b\n \t\r\n\t\x0c  yy zz\r\nw\n" .ignore .skip 0 = .ok ts' ∧
      (ts.filter Token.isMarker).map Token.said = (ts'.filter Token.isMarker).map Token.said := by
  let text := " a\n\tb c\r\n\n    d\ne\x0c"
  let text' := "x\n b\n \t\r\n\t\x0c  yy zz\r\nw\n"
  let us := (Variant.space.scanner.scan text).filterMap Reply.token?
  have hscan : Variant.space.scanner.scan text = Source.ofTokensUntil us none := by decide +kernel
  have hfault : (layout (wordConfig .before 0) none 0 [] (segments (wordConfig .before 0) us)).fault = none := by
    decide +kernel
  have hok : tokenize text .space .before 0 = .ok _ := (tokenize_of_layout hscan).2 hfault
  have hkeys : (contentLines text.toList).map (fun l => (l.number, l.leading)) = [(1, 1), (2, 1), (4, 4), (5, 0)] := by
    decide +kernel
  have hkeys' : (contentLines text'.toList).map (fun l => (l.number, l.leading)) = [(1, 0), (2, 1), (4, 4), (5, 0)] := by
    decide +kernel
  have hlines (number leading : Nat) (hnumber : 1 < number) :
      HasLine text.toList number leading ↔ HasLine text'.toList number leading := by
    rw [hasLine_iff, hasLine_iff, hkeys, hkeys']
    simp only [List.mem_cons, Prod.mk.injEq, List.not_mem_nil, or_false]
    omega
  have hstray : Text.hasStray text.toList = false := by decide +kernel
  have hstray' : Text.hasStray text'.toList = false := by decide +kernel
  rcases tokenize_by_lines hstray hstray' hlines .space .ignore .before .skip 0 with ⟨e, herror, -⟩ | h
  · cases hok.symm.trans herror
  · exact h

end Outline
end Offside
