import Offside.Outline.Document
import Offside.Proofs.Stream.Endings
/-!
# A unit found and a unit given

A stream that is set up without a unit takes the first indentation other than zero for it.  One that is set up with
this very unit gives the same tokens and ends in the same way (`inferred_as_preset`).  Up to that indentation no level
is open and nothing measured is more than zero, so that the unit has no part in what comes out.  At that indentation,
the unit found and the unit given come to one division.  From then on the two streams differ only by the unit that they
were set up with, which no request looks at (`Stream.recording`).
-/
namespace Offside

/-! ## The indentations measured -/

/-- The indentations that a stream measures in a source, one behind another, up to where the source has no token for it
or fails it. -/
def Config.measured (cfg : Config) : Source → List Datum
  | .token t :: source =>
    match cfg.classOf t with
    | .ok .newline =>
      match _h : scanLine cfg t source with
      | .found scan ended rest => scan.length :: (if ended then [] else cfg.measured rest)
      | .broken .. => []
    | .ok _ => cfg.measured source
    | .error _ => []
  | _ => []
termination_by source => source.length
decreasing_by
  · have := (rest_scanLine_suffix cfg t source).length_le
    rw [_h] at this
    exact Nat.lt_succ_of_le this
  · simp

/-- The first indentation other than zero. -/
def Config.firstIndent? (cfg : Config) (source : Source) : Option Datum :=
  (cfg.measured source).find? (fun length => !length.isZero)

section
variable {cfg : Config}

/-- The end of a source is not indented, and neither is what a gap hides. -/
theorem length_of_no_content (newline : Token) (whitespace : List Token) (source : Source) :
    ∀ {scan ended rest}, scanFrom cfg newline whitespace source = .found scan ended rest → scan.content = none →
      scan.length = .int 0 := by
  fun_induction scanFrom cfg newline whitespace source with
  | case1 | case2 | case3 =>
    rintro _ _ _ ⟨⟩ -
    rfl
  | case4 | case5 | case9 => rintro _ _ _ ⟨⟩
  | case8 =>
    rintro _ _ _ ⟨⟩ h
    cases h
  | case6 newline whitespace u source hc ih =>
    intro scan ended rest h hnone
    cases hr : scanFrom cfg u [] source with
    | broken f rest' =>
      rw [hr] at h
      cases h
    | found inner ended' rest' =>
      rw [hr] at h
      obtain ⟨rfl, rfl, rfl⟩ : _ ∧ _ ∧ _ := by simpa only [ScanResult.behindBlank, ScanResult.found.injEq] using h
      have hlength : inner.length = .int 0 := ih hr hnone
      exact hlength
  | case7 newline whitespace u source hc ih => exact ih

/-! ## The unit that a stream was set up with -/

theorem scanFrom_recording (unit : Nat) (newline : Token) (whitespace : List Token) (source : Source) :
    scanFrom { cfg with unit } newline whitespace source = scanFrom cfg newline whitespace source := by
  have hc (t : Token) : ({ cfg with unit } : Config).classOf t = cfg.classOf t := rfl
  exact scanFrom_congr hc newline whitespace source

end

/-- The same step, but for what a change makes of the stream. -/
def Step.mapStream (change : Stream → Stream) (x : Step) : Step :=
  { x with stream := change x.stream }

namespace Stream

/-- **A change of the stream that requests pass through is one that a list passes through.** -/
theorem drain_of_next {change : Stream → Stream}
    (h : ∀ s source, (change s).next source = (s.next source).mapStream change) (s : Stream) (source : Source) :
    (change s).drain source = { s.drain source with stream := change (s.drain source).stream } := by
  fun_induction steps s source with
  | case1 s source t ht ih =>
    have hnext := h s source
    rw [drain_of_token ht, drain_of_token (by rw [hnext]; exact ht), hnext]
    dsimp only [Step.mapStream]
    rw [ih]
  | case2 s source hn =>
    have hnext := h s source
    rw [drain_of_not_token hn, drain_of_not_token (by rw [hnext]; exact hn), hnext]
    rfl

/-- The same stream as if it had been set up with another unit. -/
def recording (unit : Nat) (s : Stream) : Stream :=
  { s with
    unit
    config := s.config.map (fun cfg => { cfg with unit }) }

theorem emit_recording (unit : Nat) (s : Stream) (rest : Source) (notes : List Note) :
    (s.recording unit).emit rest notes = (s.emit rest notes).mapStream (recording unit) := by
  obtain ⟨policy, whitespace, width, config, levels, buffer, exhausted, stopped⟩ := s
  cases buffer <;> rfl

theorem close_recording (unit : Nat) (s : Stream) (rest : Source) :
    (s.recording unit).close rest = (s.close rest).mapStream (recording unit) :=
  emit_recording unit { s with buffer := s.levels.closeAll.1, levels := s.levels.closeAll.2 } rest []

theorem settle_recording (unit : Nat) (s : Stream) (cfg : Config) (newline : Token) (scan : LineScan Token)
    (rest : Source) : (s.recording unit).settle { cfg with unit } newline scan rest =
      (s.settle cfg newline scan rest).mapStream (recording unit) := by
  unfold settle
  dsimp only [recording]
  generalize s.levels.reconcile cfg.kinds scan.length scan.content = outcome
  obtain ⟨result, levels⟩ := outcome
  cases result with
  | ok markers => exact emit_recording unit { s with levels, buffer := arrange s.policy newline scan markers } rest _
  | error f => cases f <;> rfl

theorem pull_recording (unit : Nat) (s : Stream) (cfg : Config) (source : Source) :
    (s.recording unit).pull { cfg with unit } source = (s.pull cfg source).mapStream (recording unit) := by
  cases hx : s.exhausted with
  | true =>
    rw [pull_exhausted hx, pull_exhausted (s := s.recording unit) hx]
    exact close_recording unit s source
  | false =>
    have hx' : (s.recording unit).exhausted = false := hx
    cases source with
    | nil =>
      rw [pull_nil hx, pull_nil hx']
      exact close_recording unit { s with exhausted := true } []
    | cons r rest =>
      simp only [pull, hx, hx', Bool.false_eq_true, if_false]
      cases r with
      | done => exact close_recording unit { s with exhausted := true } rest
      | gap => exact close_recording unit s rest
      | fault f => rfl
      | token t =>
        have hc : ({ cfg with unit } : Config).classOf t = cfg.classOf t := rfl
        simp only [hc, scanLine, scanFrom_recording]
        cases cfg.classOf t with
        | error e => rfl
        | ok c =>
          cases c with
          | whitespace | other => rfl
          | newline =>
            dsimp only
            cases scanFrom cfg t [] rest with
            | broken f rest' => rfl
            | found scan ended rest' => exact settle_recording unit { s with exhausted := ended } cfg t scan rest'

/-- **No request looks at the unit that the stream was set up with.** -/
theorem next_recording (unit : Nat) (s : Stream) (source : Source) :
    (s.recording unit).next source = (s.next source).mapStream (recording unit) := by
  have hpull (cfg : Config) := pull_recording unit s cfg source
  obtain ⟨policy, whitespace, width, config, levels, buffer, exhausted, stopped⟩ := s
  cases config with
  | none => rfl
  | some cfg =>
    cases stopped with
    | some e => rfl
    | none =>
      cases buffer with
      | cons t buffer => rfl
      | nil => exact hpull cfg

/-! ## Up to the first indentation -/

end Stream

/-- The same without the notes. -/
def Drained.silent (d : Drained) : Drained :=
  { d with notes := [] }

theorem Drained.toExcept_congr {d d' : Drained} (htokens : d'.tokens = d.tokens) (hfault : d'.fault = d.fault) :
    d'.toExcept = d.toExcept := by
  rw [toExcept, toExcept, htokens, hfault]

namespace Levels

/-- Where no level is open, no indentation leaves the levels as they are. -/
theorem reconcile_start_zero (kinds : Kinds) (unit : Datum) {length : Datum} (h : length.isZero = true)
    (trigger : Option Token) : (start unit).reconcile kinds length trigger = (.ok [], start unit) := by
  unfold reconcile
  rw [if_pos h]
  rfl

/-- **The first indentation comes to the same whether it is found to be the unit or the unit is given.** -/
theorem reconcile_start_unit (kinds : Kinds) {unit : Int} (hu : unit ≠ 0) (t : Token) :
    (start (.int unit)).reconcile kinds (.int unit) (some t) =
      (start (.int 0)).reconcile kinds (.int unit) (some t) := by
  rw [reconcile_int (s := start (.int unit)) rfl, reconcile_int (s := start (.int 0)) rfl]
  simp only [if_neg hu, if_pos, Int.fmod_self]
  rfl

end Levels

namespace Stream

theorem drain_silent {s s' : Stream} {source source' : Source}
    (hreply : (s'.next source').reply = (s.next source).reply)
    (hstream : (s'.next source').stream = (s.next source).stream)
    (hrest : (s'.next source').rest = (s.next source).rest) : (s'.drain source').silent = (s.drain source).silent := by
  by_cases ht : ∃ t, (s.next source).reply = .token t
  · obtain ⟨t, ht⟩ := ht
    rw [drain_of_token ht, drain_of_token (hreply.trans ht), hstream, hrest]
    rfl
  · have hn : ∀ t, (s.next source).reply ≠ .token t := fun t h => ht ⟨t, h⟩
    rw [drain_of_not_token hn, drain_of_not_token (by rwa [hreply]), hreply, hstream, hrest]
    rfl

variable {cfg : Config}

/-- **Up to the first indentation other than zero the unit has no part in what comes out, and there it is the unit
whether it is given or not.**  The induction is on the scans up to that one. -/
theorem drain_start {unit : Int} (source : Source) {s : Stream} (hc : s.config = some cfg) (he : s.stopped = none)
    (hb : s.buffer = []) (hx : s.exhausted = false) (hl : s.levels = .start (.int 0))
    (hu : cfg.firstIndent? source = some (.int unit)) :
    ({ s with levels := .start (.int unit) }.drain source).silent = (s.drain source).silent := by
  let preset : Stream := { s with levels := .start (.int unit) }
  show (preset.drain source).silent = _
  have hzero : unit ≠ 0 := by
    have := List.find?_some hu
    simpa using this
  unfold Config.firstIndent? at hu
  fun_induction cfg.measured source with
  | case1 t source hk scan ended rest hs ih =>
    have ht : cfg.classify t = .newline := Config.classify_of_classOf hk
    have hstart : s.levels.reconcile cfg.kinds scan.length scan.content =
        (Levels.start (.int 0)).reconcile cfg.kinds scan.length scan.content := by rw [hl]
    cases hlength : scan.length.isZero with
    | true =>
      rw [List.find?_cons_of_neg (by simp [hlength])] at hu
      cases ended with
      | true => cases hu
      | false =>
        have hm (unit : Datum) := Levels.reconcile_start_zero cfg.kinds unit hlength scan.content
        have hbehind : { s with levels := .start (.int 0), exhausted := false } = s := by rw [← hl, ← hx]
        have hbehind' : { preset with levels := .start (.int unit), exhausted := false } = preset := by
          simp only [preset, hx]
        have hd := drain_of_scan hc he hb hx ht hs (hstart.trans (hm _))
        have hd' := drain_of_scan (s := preset) hc he hb hx ht hs (hm _)
        rw [hbehind] at hd
        rw [hbehind'] at hd'
        have := ih hu
        simp only [Drained.silent, Drained.mk.injEq] at this ⊢
        rw [hd, hd']
        simp [this, preset]
    | false =>
      rw [List.find?_cons_of_pos (by simp [hlength])] at hu
      obtain ⟨content, hcontent⟩ : ∃ content, scan.content = some content := by
        refine Option.ne_none_iff_exists'.1 fun hn => ?_
        rw [length_of_no_content _ _ _ hs hn] at hlength
        cases hlength
      have hreconcile : preset.levels.reconcile cfg.kinds scan.length scan.content =
          s.levels.reconcile cfg.kinds scan.length scan.content := by
        rw [hstart, hcontent, Option.some.inj hu]
        exact Levels.reconcile_start_unit cfg.kinds hzero content
      have hnext := next_scanned hc he hb hx ht hs
      have hnext' := next_scanned (s := preset) hc he hb hx ht hs
      -- both scans come to the same markers and levels, or to the same fault
      simp only [settle, hreconcile, preset] at hnext hnext'
      generalize s.levels.reconcile cfg.kinds scan.length scan.content = outcome at hnext hnext'
      obtain ⟨result, levels⟩ := outcome
      refine drain_silent ?_ ?_ ?_ <;> rw [hnext, hnext'] <;> cases result with
      | ok markers => rfl
      | error f => cases f <;> rfl
  | case2 => cases hu
  | case3 t source c hne hk ih =>
    obtain ⟨hknown, rfl⟩ := Config.classOf_eq_ok_iff.1 hk
    have := ih hu
    rw [drain_of_passed hc he hb hx hne hknown, drain_of_passed (s := preset) hc he hb hx hne hknown]
    simp only [Drained.silent, Drained.mk.injEq] at this ⊢
    simp [this]
  | case4 | case5 => cases hu

/-! ## Whole streams -/

/-- A unit that is not zero stays as it is up to the end of a list. -/
theorem unit_drain {s : Stream} (hc : s.config = some cfg) (hu : s.levels.unit.isZero = false) (source : Source) :
    (s.drain source).stream.levels.unit = s.levels.unit := by
  let P (x : Flow) : Prop := x.stream.config = some cfg ∧ x.stream.levels.unit = s.levels.unit
  have hrequest (x : Flow) (hx : P x) : P (.ofStep x.request) :=
    have h := request_next hx.1 x.rest
    ⟨h.config_eq.trans hx.1, (h.unit_eq (by rw [hx.2, hu])).trans hx.2⟩
  have hcall := Flow.call_induction (P := P) (fun x hx => by rw [hx.1]; nofun) hrequest ⟨s, source⟩ .list ⟨hc, rfl⟩
  exact hcall.2

/-- **Whatever unit a stream finds, the stream that is given this unit drains alike**, whatever the source replies. -/
theorem drain_inferred {source : Source} {unit : Nat}
    (hu : { cfg with unit := 0 }.firstIndent? source = some (.int unit)) :
    let d (unit : Nat) := (ofConfig { cfg with unit }).drain source
    (d unit).tokens = (d 0).tokens ∧ (d unit).fault = (d 0).fault ∧ (d unit).rest = (d 0).rest ∧
      (d unit).stream = (d 0).stream.recording unit ∧ (d 0).stream.levels.unit = .int unit := by
  intro d
  let found : Stream := ofConfig { cfg with unit := 0 }
  let preset : Stream := { found with levels := .start (.int unit) }
  have hpreset : d unit = _ := drain_of_next (next_recording unit) preset source
  have hstart : (preset.drain source).silent = (d 0).silent :=
    drain_start (s := found) source rfl rfl rfl rfl rfl hu
  have hzero : (Datum.int unit).isZero = false := by
    have := List.find?_some hu
    simpa using this
  have hunit : (preset.drain source).stream.levels.unit = .int unit := unit_drain (s := preset) rfl hzero source
  simp only [Drained.silent, Drained.mk.injEq] at hstart
  obtain ⟨htokens, hfault, hstream, hrest, -⟩ := hstart
  rw [hpreset]
  exact ⟨htokens, hfault, hrest, congrArg (recording unit) hstream, hstream ▸ hunit⟩

end Stream

/-- **A unit that is found comes to the same as one that is given.**  Let the first indentation other than zero that a
stream measures be an integer.  The stream that is set up with this unit gives the same tokens, ends in the same way, at
the same place of the source, and leaves the same levels with the same unit; it differs from the other one only by
what it was set up with.  So the tokens of a text are the same for the unit zero and for the first indentation met, and
so is its outline. -/
theorem inferred_as_preset :
    (∀ (cfg : Config) (source : Source) (unit : Nat),
      { cfg with unit := 0 }.firstIndent? source = some (.int unit) →
      let d (unit : Nat) := (Stream.ofConfig { cfg with unit }).drain source
      (d unit).tokens = (d 0).tokens ∧ (d unit).fault = (d 0).fault ∧
        (d unit).stream.levels.depth = (d 0).stream.levels.depth ∧
        (d unit).stream.levels.unit = .int unit ∧ (d 0).stream.levels.unit = .int unit ∧
        (d unit).stream = (d 0).stream.recording unit ∧ (d unit).rest = (d 0).rest) ∧
    (∀ (text : String) (variant : Variant) (policy : Policy) (unit : Nat),
      (wordConfig policy 0).firstIndent? (variant.scanner.scan text) = some (.int unit) →
      tokenize text variant policy 0 = tokenize text variant policy unit) ∧
    (∀ (text : String) (unit : Nat),
      (Outline.config 0).firstIndent? (Outline.scanner.scan text) = some (.int unit) →
      Outline.parseText text 0 = Outline.parseText text unit) := by
  refine ⟨fun cfg source unit hu => ?_, fun text variant policy unit hu => ?_, fun text unit hu => ?_⟩
  · intro d
    obtain ⟨htokens, hfault, hrest, hstream, hunit⟩ := Stream.drain_inferred hu
    have hlevels : (d unit).stream.levels = (d 0).stream.levels := by
      rw [hstream]
      rfl
    exact ⟨htokens, hfault, congrArg Levels.depth hlevels, (congrArg Levels.unit hlevels).trans hunit, hunit, hstream,
      hrest⟩
  · obtain ⟨htokens, hfault, -⟩ := @Stream.drain_inferred (wordConfig policy 0) _ unit hu
    exact (Drained.toExcept_congr htokens hfault).symm
  · obtain ⟨htokens, hfault, -⟩ := @Stream.drain_inferred (Outline.config 0) _ unit hu
    have hlines : Outline.parseLines text unit = Outline.parseLines text 0 := congrArg₂ Outline.read htokens hfault
    rw [Outline.parseText, Outline.parseText, hlines]

/-- Four columns found by a scan over a blank line, in a stream that is stopped later, and two columns found in texts
with a line that fits none of their levels. -/
theorem inferred_as_preset_misaligned :
    (wordConfig .before 0).firstIndent? (Source.ofTokens misalignedTokens) = some (.int 4) ∧
    let d (unit : Nat) := (Stream.ofConfig (wordConfig .before unit)).drain (Source.ofTokens misalignedTokens)
    (d 4).tokens = (d 0).tokens ∧ (d 4).fault = (d 0).fault ∧ (d 0).stream.levels.unit = .int 4 ∧
      tokenize "a\n  b\n   c" .space .after 0 = tokenize "a\n  b\n   c" .space .after 2 ∧
      Outline.parseText "a\n  b\n   c" 0 = Outline.parseText "a\n  b\n   c" 2 := by
  have hstream : (wordConfig .before 0).firstIndent? (Source.ofTokens misalignedTokens) = some (.int 4) := by
    decide +kernel
  have htext : (wordConfig .after 0).firstIndent? (Variant.space.scanner.scan "a\n  b\n   c") = some (.int 2) := by
    decide +kernel
  have hlines : (Outline.config 0).firstIndent? (Outline.scanner.scan "a\n  b\n   c") = some (.int 2) := by
    decide +kernel
  obtain ⟨hdrain, htokenize, hparse⟩ := inferred_as_preset
  obtain ⟨htokens, hfault, -, -, hunit, -⟩ := hdrain (wordConfig .before 0) _ 4 hstream
  exact ⟨hstream, htokens, hfault, hunit, htokenize _ _ _ _ htext, hparse _ _ hlines⟩

end Offside
