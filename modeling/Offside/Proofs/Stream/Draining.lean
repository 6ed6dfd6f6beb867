import Offside.Stream.Steps
import Offside.Tokenize
/-!
# What a stream gives

A stream drained into a list gives tokens until it stops, and with them come the fault that stopped it, if one did, and
the levels that are open then (`Stream.Gives`).  Each lemma here says what one step adds to that in front.
-/
namespace Offside

/-! ## Draining, token by token -/

/-- The indentation that a fault refuses, if it is one that stops a stream. -/
def Fault.refusal? : Fault → Option IndentError
  | .indent e => some e
  | _ => none

namespace Stream

variable {s : Stream} {source : Source}

theorem drain_of_token {t : Token} (h : (s.next source).reply = .token t) :
    s.drain source =
      let d := (s.next source).stream.drain (s.next source).rest
      { d with tokens := t :: d.tokens, notes := (s.next source).notes ++ d.notes } := by
  have hne := steps_ne_nil (s.next source).stream (s.next source).rest
  obtain ⟨last, hlast⟩ := Option.ne_none_iff_exists'.1 (fun hn => hne (List.getLast?_eq_none_iff.1 hn))
  have hcons : (s.next source :: (s.next source).stream.steps (s.next source).rest).getLast? = some last := by
    rw [List.getLast?_cons, hlast]
    rfl
  simp only [drain, steps_of_token h, hcons, hlast, List.filterMap_cons, h, Reply.token?, List.flatMap_cons,
    Option.map_some, Option.getD_some]

theorem drain_of_not_token (h : ∀ t, (s.next source).reply ≠ .token t) :
    s.drain source = ⟨[], (s.next source).reply.fault?, (s.next source).stream, (s.next source).rest,
      (s.next source).notes⟩ := by
  have hnone : (s.next source).reply.token? = none := by
    cases hr : (s.next source).reply with
    | token t => exact absurd hr (h t)
    | _ => rfl
  simp [drain, steps_of_not_token h, hnone]

theorem next_held {cfg : Config} (hc : s.config = some cfg) (he : s.stopped = none) {t : Token} {buffer : List Token}
    (hb : s.buffer = t :: buffer) : s.next source = ⟨.token t, { s with buffer }, source, []⟩ := by
  cases s
  subst hc he hb
  rfl

theorem next_idle {cfg : Config} (hc : s.config = some cfg) (he : s.stopped = none) (hb : s.buffer = [])
    (source : Source) : s.next source = s.pull cfg source := by
  cases s
  subst hc he hb
  rfl

/-- What is held back comes first, and changes nothing about the rest. -/
theorem drain_held {cfg : Config} (hc : s.config = some cfg) (he : s.stopped = none) (hb : s.buffer = [])
    (held : List Token) :
    { s with buffer := held }.drain source = { s.drain source with tokens := held ++ (s.drain source).tokens } := by
  induction held with
  | nil =>
    have hs : { s with buffer := [] } = s := by rw [← hb]
    rw [hs]
    rfl
  | cons t held ih =>
    let full : Stream := { s with buffer := t :: held }
    have hnext : full.next source = _ := next_held (s := full) hc he rfl
    rw [drain_of_token (by rw [hnext]), hnext, ih]
    rfl

theorem drain_of_emit {cfg : Config} {s' : Stream} {rest : Source} {notes : List Note} (hc : s'.config = some cfg)
    (he : s'.stopped = none) (hne : s'.buffer ≠ []) (h : s.next source = s'.emit rest notes) :
    s.drain source =
      let d := { s' with buffer := [] }.drain rest
      { d with tokens := s'.buffer ++ d.tokens, notes := notes ++ d.notes } := by
  obtain ⟨t, held, hb⟩ := List.exists_cons_of_ne_nil hne
  have hnext : s.next source = ⟨.token t, { s' with buffer := held }, rest, notes⟩ := by rw [h, emit, hb]
  rw [drain_of_token (by rw [hnext]), hnext, hb]
  dsimp only
  rw [drain_held (s := { s' with buffer := [] }) hc he rfl held]
  rfl

/-! ### Idle streams -/

section
variable {cfg : Config} {t : Token}

theorem drain_of_passed (hc : s.config = some cfg) (he : s.stopped = none) (hb : s.buffer = [])
    (hx : s.exhausted = false) (ht : cfg.classify t ≠ .newline) (hk : cfg.knows t = true) :
    s.drain (.token t :: source) = { s.drain source with tokens := t :: (s.drain source).tokens } := by
  have hnext : s.next (.token t :: source) = ⟨.token t, s, source, []⟩ := by
    rw [next_idle hc he hb, pull_passed hx ht hk]
  rw [drain_of_token (by rw [hnext]), hnext]
  rfl

theorem drain_of_unknown (hc : s.config = some cfg) (he : s.stopped = none) (hb : s.buffer = [])
    (hx : s.exhausted = false) {e : KindError} (ht : cfg.classOf t = .error e) :
    s.drain (.token t :: source) = ⟨[], some (.kind e), s, source, []⟩ := by
  have hnext : s.next (.token t :: source) = ⟨.fault (.kind e), s, source, []⟩ := by
    rw [next_idle hc he hb, pull_unknown hx ht]
  rw [drain_of_not_token (by simp [hnext]), hnext]
  rfl

theorem next_scanned {scan : LineScan Token} {ended : Bool} {rest : Source} (hc : s.config = some cfg)
    (he : s.stopped = none) (hb : s.buffer = []) (hx : s.exhausted = false) (ht : cfg.classify t = .newline)
    (hs : scanLine cfg t source = .found scan ended rest) :
    s.next (.token t :: source) = { s with exhausted := ended }.settle cfg t scan rest := by
  rw [next_idle hc he hb, pull_newline hx ht, hs]

/-- A scan whose indentation comes to markers gives its tokens with them, and the stream goes on from the levels that
it has then. -/
theorem drain_of_scan {scan : LineScan Token} {ended : Bool} {rest : Source} {markers : List Token} {levels : Levels}
    (hc : s.config = some cfg) (he : s.stopped = none) (hb : s.buffer = []) (hx : s.exhausted = false)
    (ht : cfg.classify t = .newline) (hs : scanLine cfg t source = .found scan ended rest)
    (hm : s.levels.reconcile cfg.kinds scan.length scan.content = (.ok markers, levels)) :
    s.drain (.token t :: source) =
      let d := { s with levels, exhausted := ended }.drain rest
      { d with
        tokens := arrange s.policy t scan markers ++ d.tokens
        notes := scanNotes s.levels scan (.ok markers) ++ d.notes } := by
  let full : Stream := { s with levels, exhausted := ended, buffer := arrange s.policy t scan markers }
  have hnext : s.next (.token t :: source) = full.emit rest (scanNotes s.levels scan (.ok markers)) := by
    rw [next_scanned hc he hb hx ht hs]
    simp only [settle, hm]
    rfl
  have hconfig : full.config = some cfg := hc
  have hstopped : full.stopped = none := he
  have hne : full.buffer ≠ [] := by simp [full, arrange]
  have hempty : { full with buffer := [] } = { s with levels, exhausted := ended } := by simp only [full, hb]
  rw [drain_of_emit hconfig hstopped hne hnext, hempty]

theorem drain_of_broken {f : Fault} {rest : Source} (hc : s.config = some cfg) (he : s.stopped = none)
    (hb : s.buffer = []) (hx : s.exhausted = false) (ht : cfg.classify t = .newline)
    (hs : scanLine cfg t source = .broken f rest) : s.drain (.token t :: source) = ⟨[], some f, s, rest, []⟩ := by
  have hnext : s.next (.token t :: source) = ⟨.fault f, s, rest, []⟩ := by
    rw [next_idle hc he hb, pull_newline hx ht, hs]
  rw [drain_of_not_token (by simp [hnext]), hnext]
  rfl

/-- A scan whose indentation comes to a fault ends the stream, and stops it if the indentation is refused. -/
theorem drain_of_scan_fault {scan : LineScan Token} {ended : Bool} {rest : Source} {f : Fault} {levels : Levels}
    (hc : s.config = some cfg) (he : s.stopped = none) (hb : s.buffer = []) (hx : s.exhausted = false)
    (ht : cfg.classify t = .newline) (hs : scanLine cfg t source = .found scan ended rest)
    (hm : s.levels.reconcile cfg.kinds scan.length scan.content = (.error f, levels)) :
    s.drain (.token t :: source) =
      { tokens := []
        fault := some f
        stream :=
          { s with
            levels
            exhausted := ended
            stopped := f.refusal? }
        rest
        notes := scanNotes s.levels scan (.error f) } := by
  have hnext := next_scanned hc he hb hx ht hs
  simp only [settle, hm] at hnext
  cases f <;> rw [drain_of_not_token (by simp [hnext]), hnext] <;> simp [Reply.fault?, Fault.refusal?, he]

end

end Stream

/-! ## What a stream gives -/

theorem Source.ofTokens_cons (t : Token) (ts : List Token) :
    Source.ofTokens (t :: ts) = .token t :: Source.ofTokens ts := rfl

/-- A list of tokens as a source, and the fault that it ends with, if it does. -/
def Source.ofTokensUntil (ts : List Token) (failure : Option Fault) : Source :=
  Source.ofTokens ts ++ (failure.map Reply.fault).toList

/-- The tokens of a stream up to its end, the fault if that is how it ends, and the levels it leaves. -/
structure Layout where
  tokens : List Token
  fault : Option Fault
  levels : Levels

namespace Layout

/-- The same behind some more tokens. -/
def behind (ts : List Token) (l : Layout) : Layout :=
  { l with tokens := ts ++ l.tokens }

end Layout

namespace Stream

/-- Asked until it gives no token, a stream gives the tokens of a layout, ends as it does and leaves its levels. -/
def Gives (s : Stream) (source : Source) (l : Layout) : Prop :=
  (s.drain source).tokens = l.tokens ∧ (s.drain source).fault = l.fault ∧ (s.drain source).stream.levels = l.levels

variable {s : Stream} {source rest : Source} {cfg : Config} {l : Layout}

theorem gives_of_token {s' : Stream} {t : Token} {notes : List Note} (h : s.next source = ⟨.token t, s', rest, notes⟩)
    (hg : s'.Gives rest l) : s.Gives source (l.behind [t]) := by
  have hd : s.drain source = _ := drain_of_token (by rw [h])
  rw [h] at hd
  obtain ⟨ht, hf, hl⟩ := hg
  unfold Gives
  rw [hd]
  exact ⟨congrArg (t :: ·) ht, hf, hl⟩

theorem gives_of_fault {s' : Stream} {f : Fault} {notes : List Note} (h : s.next source = ⟨.fault f, s', rest, notes⟩) :
    s.Gives source ⟨[], some f, s'.levels⟩ := by
  have hd : s.drain source = _ := drain_of_not_token (by simp [h])
  rw [h] at hd
  unfold Gives
  rw [hd]
  exact ⟨rfl, rfl, rfl⟩

theorem gives_of_done {s' : Stream} {notes : List Note} (h : s.next source = ⟨.done, s', rest, notes⟩) :
    s.Gives source ⟨[], none, s'.levels⟩ := by
  have hd : s.drain source = _ := drain_of_not_token (by simp [h])
  rw [h] at hd
  unfold Gives
  rw [hd]
  exact ⟨rfl, rfl, rfl⟩

theorem gives_of_next_eq {s' : Stream} {source' : Source} (h : s.next source = s'.next source')
    (hg : s'.Gives source' l) : s.Gives source l := by
  have hd : s.drain source = s'.drain source' := by
    by_cases ht : ∃ t, (s'.next source').reply = .token t
    · obtain ⟨t, ht⟩ := ht
      rw [drain_of_token (h ▸ ht), drain_of_token ht, h]
    · have ht' : ∀ t, (s'.next source').reply ≠ .token t := fun t hr => ht ⟨t, hr⟩
      rw [drain_of_not_token (by rwa [h]), drain_of_not_token ht', h]
  rw [Gives, hd]
  exact hg

theorem gives_of_emit (s' : Stream) {notes : List Note} (hc : s'.config = some cfg) (he : s'.stopped = none)
    (h : s.next source = s'.emit rest notes) (hne : s'.buffer ≠ []) (hg : { s' with buffer := [] }.Gives rest l) :
    s.Gives source (l.behind s'.buffer) := by
  obtain ⟨ht, hf, hl⟩ := hg
  unfold Gives
  rw [drain_of_emit hc he hne h]
  exact ⟨congrArg (s'.buffer ++ ·) ht, hf, hl⟩

theorem gives_of_exhausted (hc : s.config = some cfg) (he : s.stopped = none) (hb : s.buffer = [])
    (hx : s.exhausted = true) : s.Gives source ⟨s.levels.closeAll.1, none, s.levels.closeAll.2⟩ := by
  have hdone {s : Stream} (hc : s.config = some cfg) (he : s.stopped = none) (hb : s.buffer = [])
      (hx : s.exhausted = true) (hl : s.levels.closeAll.1 = []) : s.Gives source ⟨[], none, s.levels.closeAll.2⟩ := by
    have hnext : s.next source = ⟨.done, { s with buffer := [], levels := s.levels.closeAll.2 }, source, []⟩ := by
      rw [next_idle hc he hb source, pull_exhausted hx, close, hl]
      rfl
    exact gives_of_done hnext
  by_cases hl : s.levels.closeAll.1 = []
  · rw [hl]
    exact hdone hc he hb hx hl
  · have hnext := (next_idle hc he hb source).trans (pull_exhausted hx cfg source)
    have hrest : { s with buffer := [], levels := s.levels.closeAll.2 }.Gives source _ := hdone hc he rfl hx rfl
    let closed : Stream := { s with buffer := s.levels.closeAll.1, levels := s.levels.closeAll.2 }
    have hg := gives_of_emit closed hc he hnext hl hrest
    simpa [closed, Layout.behind, Levels.closeAll, Ledger.drain, Ledger.empty] using hg

end Stream

end Offside
