import Offside.Proofs.Outline.Rendering
import Offside.Proofs.Outline.Words
/-!
# The parser and the tokenizer agree

Whatever a text's lines are, the stream over them gives an outline for the grammar, up to the fault that ends it if one
does (`LeadsOn.of_lines`).  So the parser fails for what its stream fails for, and the stream of the tokenizer fails
for the same, since lines and words land alike (`parse_agrees_with_tokenize`).
-/
namespace Offside

/-- The tokens of a text without white space, where option values say what the policy and the unit are. -/
def tokenizeWords (text : String) (policy unit : Datum) : Except Failure (List Token) := do
  let cfg ← (wordConfigOfData policy unit).mapError (fun e => .fault (.config e))
  (tokenize text .ignore cfg.policy cfg.unit).mapError .fault

/-- A marker with its type changed from one set of types to another. -/
def Kinds.retype (kinds kinds' : Kinds) (m : Token) : Token :=
  { m with type := if m.type = kinds.indent then kinds'.indent else kinds'.dedent }

namespace Outline

variable {unit : Nat} {t : Token}

theorem IsLineOrBreak.newline (h : IsLineOrBreak t) (hc : (config unit).classify t ≠ .other) : t.type = .name "_NL" := by
  rcases h with hn | ⟨hl, hblank⟩
  · exact hn.type
  · exact absurd (classify_content_line hl hblank unit) hc

theorem IsLineOrBreak.line (h : IsLineOrBreak t) (hc : (config unit).classify t ≠ .newline) : t.type = .name "LINE" := by
  rcases h with hn | ⟨hl, -⟩
  · exact absurd (classify_newline_line hn unit) hc
  · exact hl.type

theorem isOfLines {ts : List Token} (hts : ∀ t ∈ ts, IsLineOrBreak t) (ht : IsLineOrBreak t)
    (hc : (config unit).classify t = .newline) :
    Window.IsOfLines ⟨t, ts.takeWhile (config unit).isGap, (ts.dropWhile (config unit).isGap).head?⟩ where
  newline := ht.newline (by rw [hc]; decide)
  gap := by
    intro u hu
    have hgap : (config unit).isGap u = true := List.mem_takeWhile_imp hu
    exact (hts u ((List.takeWhile_sublist _).subset hu)).newline (by simpa [Config.isGap] using hgap)
  content := by
    intro u hu
    have hgap := head_dropWhile (config unit).isGap ts u hu
    have hother : (config unit).classify u = .other := by simpa [Config.isGap] using hgap
    exact (hts u ((List.dropWhile_sublist _).subset (List.mem_of_mem_head? hu))).line (by rw [hother]; decide)

/-- Whether what a stream gives over some segments leads a reader on, as far as it goes, and to an end of the outline if
the stream does not fail. -/
def LeadsOn (unit : Nat) (failure : Option Fault) (segs : List Segment) : Prop :=
  ∀ (width : Nat) (opened : List Token) (r : Reader) (lines : List (Nat × Token)), r.Holds opened.length lines →
    r.IsReady →
    let l := layout (config unit) failure width opened segs
    ∃ r', r.Takes l.tokens r' ∧ (l.fault = none → r'.finish?.isSome = true)

namespace LeadsOn

variable {failure : Option Fault} {segs : List Segment}

theorem nil (unit : Nat) (failure : Option Fault) : LeadsOn unit failure [] := by
  intro width opened r lines h hready
  cases failure with
  | some f => exact ⟨r, Reader.takes_nil r, nofun⟩
  | none =>
    obtain ⟨r', htakes, hend⟩ := Reader.takes_closings h hready
    exact ⟨r', htakes, fun _ => by rw [Reader.finish?_eq hend]; rfl⟩

theorem line (ht : t.type = .name "LINE") (hsegs : LeadsOn unit failure segs) :
    LeadsOn unit failure (.token t :: segs) := by
  intro width opened r lines h hready
  obtain ⟨s, hs, hlines, hready'⟩ := Reader.step_line h ht
  obtain ⟨r', htakes, hend⟩ := hsegs _ _ _ _ hlines hready'
  exact ⟨r', Reader.takes_cons hs htakes, hend⟩

theorem window {w : Window} (hw : w.IsOfLines) (hnil : w.content = none → segs = [])
    (hsegs : LeadsOn unit failure segs) : LeadsOn unit failure (.window w :: segs) := by
  intro width opened r lines h hready
  by_cases hopen : w.content ≠ none ∨ failure = none
  · rw [layout_window hopen]
    dsimp only
    generalize hfixed : fixedBy width (w.length (config unit)) = fixed
    by_cases hd : w.length (config unit) % fixed = 0
    · rw [if_pos hd]
      cases hcontent : w.content with
      | some c =>
        obtain ⟨s, hs, hlines, hready'⟩ := Reader.takes_window unit fixed hw hcontent h hready
        have hlength : (w.openedBehind (config unit) fixed opened).length = w.length (config unit) / fixed := by
          rw [Window.openedBehind, hcontent, length_openedAt_some]
        rw [← hlength] at hlines
        obtain ⟨r', htakes, hend⟩ := hsegs _ _ _ _ hlines hready'
        exact ⟨r', hs.append htakes, hend⟩
      | none =>
        -- only line breaks were left, so nothing comes behind the window
        obtain ⟨r', htakes, hend⟩ := Reader.takes_window_of_end unit fixed hw hcontent h hready
        have hopened : w.openedBehind (config unit) fixed opened = [] := by
          rw [Window.openedBehind, Window.length_of_end hcontent, Nat.zero_div, openedAt_zero]
        rw [hnil hcontent, hopened, hopen.resolve_left fun h => h hcontent]
        refine ⟨r', ?_, fun _ => by rw [Reader.finish?_eq hend]; rfl⟩
        simpa [layout, Layout.behind] using htakes
    · rw [if_neg hd]
      exact ⟨r, Reader.takes_nil r, fun h => absurd h (Option.some_ne_none _)⟩
  · -- the source fails before the line has content, and the stream with it
    rw [layout_window_cut hopen]
    exact ⟨r, Reader.takes_nil r, fun h => absurd (.inr h) hopen⟩

/-- **What a stream gives over lines is an outline as far as it goes**, and a whole one if the stream does not fail. -/
theorem of_lines (unit : Nat) (failure : Option Fault) {ts : List Token} (hts : ∀ t ∈ ts, IsLineOrBreak t) :
    LeadsOn unit failure (segments (config unit) ts) := by
  fun_induction segments (config unit) ts with
  | case1 => exact .nil unit failure
  | case2 t ts hc ih =>
    obtain ⟨ht, hts⟩ := List.forall_mem_cons.1 hts
    have hrest : ∀ u ∈ (ts.dropWhile (config unit).isGap).tail, IsLineOrBreak u := fun u hu =>
      hts u ((List.dropWhile_sublist _).subset (List.mem_of_mem_tail hu))
    refine (ih hrest).window (isOfLines hts ht hc) fun hcontent => ?_
    rw [List.head?_eq_none_iff.1 hcontent, List.tail_nil, segments]
  | case3 t ts hc ih =>
    obtain ⟨ht, hts⟩ := List.forall_mem_cons.1 hts
    exact (ih hts).line (ht.line hc)

end LeadsOn

/-- What a reader that is led on makes of a stream: it fails for what the stream fails for. -/
theorem read_of_takes_any {tokens : List Token} {fault : Option Fault} {r : Reader}
    (htakes : Reader.start.Takes tokens r) (hend : fault = none → r.finish?.isSome = true) :
    (∀ f, fault = some f → read tokens fault = .error (.fault f)) ∧
      (fault = none → ∃ forest, read tokens fault = .ok forest) := by
  unfold read
  rw [htakes 0]
  constructor
  · rintro f rfl
    rfl
  · intro h
    obtain ⟨forest, hforest⟩ := Option.isSome_iff_exists.1 (hend h)
    subst h
    exact ⟨forest, by simp only [hforest]⟩

theorem carries_retype : Carries kinds wordKinds (fun t u => t.start = u.start)
    (fun m m' => m' = kinds.retype wordKinds m) where
  opening := by
    intro t t' hstart unit level
    rw [Token.opening, Token.opening, hstart]
    rfl
  closing := by
    rintro m m' rfl
    rfl
  place := by
    intro t t' hstart
    rw [hstart]
    exact ⟨rfl, rfl⟩

/-- **The streams over lines and over words agree**: their markers are the same but for the types, and they end in the
same fault.  The lines are an outline as far as the stream goes. -/
theorem streams_agree (text : String) (unit : Nat) (policy : Policy) :
    let d := drainText unit text
    let d' := Offside.drainText (wordConfig policy unit) .ignore text
    d'.tokens.filter Token.isMarker = (d.tokens.filter Token.isMarker).map (kinds.retype wordKinds) ∧
      d'.fault = d.fault ∧ (∀ f, d.fault = some f → (∃ i, f = .indent i) ∨ ∃ place, f = .stray place) ∧
      ∃ r, Reader.start.Takes d.tokens r ∧ (d.fault = none → r.finish?.isSome = true) := by
  intro d d'
  obtain ⟨ls, ws, failure, h⟩ := scan_lines (pieces Scanner.isLineChar text.toList) .start
  have hwords : ∀ t ∈ ws, t.IsScanned := fun t ht => (h.paired.words t ht).elim IsPlain.scanned IsPlain.scanned
  have hlines : ∀ t ∈ ls, t.IsScanned := fun t ht => (h.paired.lines t ht).1
  let l := layout (config unit) failure unit [] (segments (config unit) ls)
  let l' := layout (wordConfig policy unit) failure unit [] (segments (wordConfig policy unit) ws)
  obtain ⟨htokens, hfault⟩ : d.tokens = l.tokens ∧ d.fault = l.fault :=
    Stream.drain_layout (config unit) hlines h.lines
  obtain ⟨htokens', hfault'⟩ : d'.tokens = l'.tokens ∧ d'.fault = l'.fault :=
    Stream.drain_layout (wordConfig policy unit) hwords h.words
  -- the markers and the fault of a stream come from where its lines land, and lines land where their first words do
  have hmarks : l.marks = marks kinds failure unit [] (landings (config unit) (segments (config unit) ls)) :=
    marks_layout (config unit) failure (unmarked_segments _ hlines) unit (by simp)
  have hmarks' : l'.marks =
      marks wordKinds failure unit [] (landings (wordConfig policy unit) (segments (wordConfig policy unit) ws)) :=
    marks_layout (wordConfig policy unit) failure (unmarked_segments _ hwords) unit (by simp)
  obtain ⟨hmarkers, hsame⟩ := marks_alike carries_retype failure (h.paired.landings unit policy unit) unit .nil
  rw [← hmarks, ← hmarks'] at hmarkers hsame
  have hsame : l.fault = l'.fault := hsame
  refine ⟨?_, ?_, fun f hf => ?_, ?_⟩
  · rw [htokens, htokens']
    have hmap : List.Forall₂ (fun m' m => m' = m) (l'.tokens.filter Token.isMarker)
        ((l.tokens.filter Token.isMarker).map (kinds.retype wordKinds)) :=
      List.forall₂_map_right_iff.2 hmarkers.flip
    rwa [List.forall₂_eq_eq_eq] at hmap
  · rw [hfault', hfault, hsame]
  · rw [hfault] at hf
    rcases fault_layout (config unit) failure _ unit [] f hf with hf | hi
    · exact .inr (h.stray f hf)
    · exact .inl hi
  · have hstart : Reader.start.Holds ([] : List Token).length [] := Reader.holds_start
    rw [htokens, hfault]
    exact LeadsOn.of_lines unit failure (fun t ht => (h.paired.lines t ht).2.2) unit [] .start [] hstart (.inr rfl)

theorem ofText_eq {unit : Datum} {n : Nat} (h : unitOfDatum unit = .ok n) (text : String) :
    ofText text unit = (parseText text n).map (fun entries => { text, unit := n, entries }) := by
  rw [ofText, unitOf, h]
  rfl

theorem ofDatum_name (policy : Policy) : Policy.ofDatum (.text policy.name) = .ok policy := by
  rw [Policy.ofDatum, show (Datum.text policy.name).display = policy.name from rfl, Policy.ofName?_name]

theorem tokenizeWords_eq {unit : Datum} {n : Nat} (h : unitOfDatum unit = .ok n) (text : String) (policy : Policy) :
    tokenizeWords text (.text policy.name) unit = (tokenize text .ignore policy n).mapError .fault := by
  rw [tokenizeWords, wordConfigOfData, ofDatum_name, h]
  rfl

/-- The faults that a text can have, or the unit it is read with. -/
inductive IsReported : Fault → Prop where
  | config (e : ConfigError) : IsReported (.config e)
  | indent (e : IndentError) : IsReported (.indent e)
  | stray (place : StrayReturn) : IsReported (.stray place)

/-- A text is parsed and cut into tokens, or neither, for one reason. -/
theorem outcomes_agree (text : String) (unit : Datum) (policy : Policy) :
    let parsed := ofText text unit
    let tokenized := tokenizeWords text (.text policy.name) unit
    (∃ f, IsReported f ∧ parsed = .error (.fault f) ∧ tokenized = .error (.fault f)) ∨
      ∃ o ts, parsed = .ok o ∧ tokenized = .ok ts := by
  intro parsed tokenized
  cases hunit : unitOfDatum unit with
  | error e =>
    refine .inl ⟨.config e, .config e, ?_, ?_⟩
    · simp only [parsed, ofText, unitOf, hunit]
      rfl
    · simp only [tokenized, tokenizeWords, wordConfigOfData, ofDatum_name, hunit]
      rfl
  | ok n =>
    let d := drainText n text
    obtain ⟨-, hfault, hreported, r, htakes, hend⟩ := streams_agree text n policy
    have hparsed : parsed = ((read d.tokens d.fault).map (Forest.map Entry.ofToken)).map
        (fun entries => { text, unit := n, entries }) := ofText_eq hunit text
    have htokenized : tokenized = (tokenize text .ignore policy n).mapError .fault := tokenizeWords_eq hunit text policy
    obtain ⟨hfails, hreads⟩ := read_of_takes_any htakes hend
    rw [tokenize, Drained.toExcept, hfault] at htokenized
    cases hf : d.fault with
    | some f =>
      refine .inl ⟨f, ?_, ?_, ?_⟩
      · rcases hreported f hf with ⟨i, rfl⟩ | ⟨place, rfl⟩
        · exact .indent i
        · exact .stray place
      · rw [hparsed, hfails f hf]
        rfl
      · rw [htokenized, hf]
        rfl
    | none =>
      obtain ⟨forest, hforest⟩ := hreads hf
      refine .inr ⟨{ text, unit := n, entries := forest.map Entry.ofToken },
        (Offside.drainText (wordConfig policy n) .ignore text).tokens, ?_, ?_⟩
      · rw [hparsed, hforest]
        rfl
      · rw [htokenized, hf]
        rfl

/-- The tokens of an outline are those of its text, which was parsed. -/
theorem tokens_of_ofText {text : String} {unit : Datum} {o : Outline} (h : ofText text unit = .ok o) :
    ∃ ts, o.tokens = .ok ts := by
  cases hunit : unitOfDatum unit with
  | error e =>
    rw [ofText, unitOf, hunit] at h
    cases h
  | ok n =>
    rcases outcomes_agree text unit .after with ⟨f, -, hparsed, -⟩ | ⟨-, ts, -, htokenized⟩
    · cases hparsed.symm.trans h
    · rw [tokenizeWords_eq hunit] at htokenized
      rw [ofText_eq hunit] at h
      cases hentries : parseText text n with
      | error e => rw [hentries] at h; cases h
      | ok entries =>
        rw [hentries] at h
        obtain rfl := Except.ok.inj h
        cases ht : tokenize text .ignore .after n with
        | error f => rw [ht] at htokenized; cases htokenized
        | ok us => exact ⟨us, ht⟩

/-- **The parser fails where the tokenizer does, for the same reason, and never on the grammar.**  The tokens of an
outline can always be had, and the markers that the parser reads are those of the tokenizer but for their types. -/
theorem parse_agrees_with_tokenize (text : String) (unit : Datum) (policy : Policy) :
    let parsed := ofText text unit
    let tokenized := tokenizeWords text (.text policy.name) unit
    (∀ index, parsed ≠ .error (.unexpected index)) ∧ (∀ e, parsed = .error e ↔ tokenized = .error e) ∧
      (∀ e, parsed = .error e → ∃ f, IsReported f ∧ e = .fault f) ∧
      (∀ path given look o, make path given unit look = .ok o → ∃ ts, o.tokens = .ok ts) ∧
      ∀ n, unitOfDatum unit = .ok n →
        (Offside.drainText (wordConfig policy n) .ignore text).tokens.filter Token.isMarker =
          ((drainText n text).tokens.filter Token.isMarker).map (kinds.retype wordKinds) := by
  intro parsed tokenized
  have hconstructed : ∀ path given look o, make path given unit look = .ok o → ∃ ts, o.tokens = .ok ts :=
    fun path given look o ho => (exists_ofText_of_make ho).elim fun text h => tokens_of_ofText h
  have hmarkers : ∀ n, unitOfDatum unit = .ok n →
      (Offside.drainText (wordConfig policy n) .ignore text).tokens.filter Token.isMarker =
        ((drainText n text).tokens.filter Token.isMarker).map (kinds.retype wordKinds) :=
    fun n _ => (streams_agree text n policy).1
  rcases outcomes_agree text unit policy with ⟨f, hf, hparsed, htokenized⟩ | ⟨o, ts, hparsed, htokenized⟩
  · have hparsed : parsed = .error (.fault f) := hparsed
    have htokenized : tokenized = .error (.fault f) := htokenized
    rw [hparsed, htokenized]
    have hsame (e : Failure) : (Except.error (.fault f) : Except Failure Outline) = .error e ↔
        (Except.error (.fault f) : Except Failure (List Token)) = .error e :=
      ⟨fun h => congrArg _ (Except.error.inj h), fun h => congrArg _ (Except.error.inj h)⟩
    exact ⟨nofun, hsame, fun e he => ⟨f, hf, (Except.error.inj he).symm⟩, hconstructed, hmarkers⟩
  · have hparsed : parsed = .ok o := hparsed
    have htokenized : tokenized = .ok ts := htokenized
    have hread (e : Failure) : parsed ≠ .error e := by
      intro h
      cases hparsed.symm.trans h
    have hcut (e : Failure) : tokenized ≠ .error e := by
      intro h
      cases htokenized.symm.trans h
    exact ⟨fun index => hread _, fun e => iff_of_false (hread e) (hcut e), fun e h => absurd h (hread e), hconstructed,
      hmarkers⟩

end Outline
end Offside
