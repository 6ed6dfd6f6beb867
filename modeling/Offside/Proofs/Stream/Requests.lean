import Offside.Stream.Steps
/-!
# Requests one after another

A configured stream answers a request in one of a few ways, and `Request` lists them all: what is stored or held back
comes first, then the source is asked, and a line break makes the stream scan on.  Everything that is proved of whole
runs is proved of these few cases first.  A run (`Run`) is any number of requests, whatever each of them gives: what
holds in front of them all and outlives every single one, holds after each (`Run.induction`).
-/
namespace Offside

/-! ## One request -/

/-- The source has no token for a stream: it is known to be over, it ends now, or there is a gap.  The truth value says
whether the stream takes it to be over from then on. -/
inductive NoToken (s : Stream) : Source → Bool → Source → Prop where
  | over {source : Source} (hx : s.exhausted = true) : NoToken s source true source
  | empty (hx : s.exhausted = false) : NoToken s [] true []
  | done {rest : Source} (hx : s.exhausted = false) : NoToken s (.done :: rest) true rest
  | gap {rest : Source} (hx : s.exhausted = false) : NoToken s (.gap :: rest) false rest

/-- The source fails a stream that asks it: at once, with a token of which it cannot be told what it is, or in the scan
behind a line break. -/
inductive Breaks (cfg : Config) : Source → Fault → Source → Prop where
  | now {f : Fault} {rest : Source} : Breaks cfg (.fault f :: rest) f rest
  | unknown {t : Token} {rest : Source} {e : KindError} (hk : cfg.classOf t = .error e) :
      Breaks cfg (.token t :: rest) (.kind e) rest
  | scanning {f : Fault} {t : Token} {source rest : Source} (hc : cfg.classify t = .newline)
      (hs : scanLine cfg t source = .broken f rest) : Breaks cfg (.token t :: source) f rest

/-- Everything that a request to a configured stream can come to. -/
inductive Request (cfg : Config) (s : Stream) : Source → Step → Prop where
  | stopped {e : IndentError} {source : Source} (he : s.stopped = some e) :
      Request cfg s source ⟨.fault (.indent e), s, source, []⟩
  | held {t : Token} {buffer : List Token} {source : Source} (he : s.stopped = none) (hb : s.buffer = t :: buffer) :
      Request cfg s source ⟨.token t, { s with buffer }, source, []⟩
  | closed {source rest : Source} {ended : Bool} (he : s.stopped = none) (hb : s.buffer = [])
      (hn : NoToken s source ended rest) : Request cfg s source ({ s with exhausted := ended }.close rest)
  | broken {source rest : Source} {f : Fault} (he : s.stopped = none) (hb : s.buffer = []) (hx : s.exhausted = false)
      (hf : Breaks cfg source f rest) : Request cfg s source ⟨.fault f, s, rest, []⟩
  | passed {t : Token} {rest : Source} (he : s.stopped = none) (hb : s.buffer = []) (hx : s.exhausted = false)
      (hc : cfg.classify t ≠ .newline) (hk : cfg.knows t = true) :
      Request cfg s (.token t :: rest) ⟨.token t, s, rest, []⟩
  | scanned {t : Token} {source rest : Source} {scan : LineScan Token} {ended : Bool} (he : s.stopped = none)
      (hb : s.buffer = []) (hx : s.exhausted = false) (hc : cfg.classify t = .newline)
      (hs : scanLine cfg t source = .found scan ended rest) :
      Request cfg s (.token t :: source) ({ s with exhausted := ended }.settle cfg t scan rest)

namespace Stream

theorem request_pull {s : Stream} (cfg : Config) (source : Source) (he : s.stopped = none) (hb : s.buffer = []) :
    Request cfg s source (s.pull cfg source) := by
  cases hx : s.exhausted with
  | true =>
    rw [pull_exhausted hx]
    have hs : { s with exhausted := true } = s := by rw [← hx]
    have hn : NoToken s source true source := .over hx
    have h : Request cfg s source _ := .closed he hb hn
    rwa [hs] at h
  | false =>
    have hs : { s with exhausted := false } = s := by rw [← hx]
    cases source with
    | nil =>
      rw [pull_nil hx]
      exact .closed he hb (.empty hx)
    | cons r rest =>
      cases r with
      | done =>
        rw [pull_done hx]
        exact .closed he hb (.done hx)
      | gap =>
        rw [pull_gap hx]
        have hn : NoToken s (.gap :: rest) false rest := .gap hx
        have h : Request cfg s (.gap :: rest) _ := .closed he hb hn
        rwa [hs] at h
      | fault f =>
        rw [pull_fault hx]
        exact .broken he hb hx .now
      | token t =>
        cases hk : cfg.classOf t with
        | error e =>
          rw [pull_unknown hx hk]
          exact .broken he hb hx (.unknown hk)
        | ok c =>
          obtain ⟨hknows, hc⟩ := Config.classOf_eq_ok_iff.1 hk
          cases c with
          | newline =>
            rw [pull_newline hx hc]
            cases hr : scanLine cfg t rest with
            | broken f rest' => exact .broken he hb hx (.scanning hc hr)
            | found scan ended rest' => exact .scanned he hb hx hc hr
          | whitespace | other =>
            have hne : cfg.classify t ≠ .newline := by simp [hc]
            rw [pull_passed hx hne hknows]
            exact .passed he hb hx hne hknows

/-- **A request to a configured stream comes to one of the cases of `Request`.** -/
theorem request_next {s : Stream} {cfg : Config} (hc : s.config = some cfg) (source : Source) :
    Request cfg s source (s.next source) := by
  unfold next
  split
  · rename_i hn
    rw [hc] at hn
    cases hn
  · rename_i cfg' hc'
    obtain rfl : cfg = cfg' := Option.some.inj (hc.symm.trans hc')
    split
    · rename_i he
      exact .stopped he
    · rename_i he
      split
      · rename_i hb
        exact .held he hb
      · rename_i hb
        exact request_pull cfg source he hb

end Stream

/-! ## Any number of requests -/

/-- What some requests to a stream have given, the stream behind them, and what its source has left. -/
structure Run where
  replies : List Reply
  stream : Stream
  rest : Source

namespace Run

def start (s : Stream) (source : Source) : Run :=
  ⟨[], s, source⟩

def next (r : Run) : Run :=
  let step := r.stream.next r.rest
  ⟨r.replies ++ [step.reply], step.stream, step.rest⟩

def tokens (r : Run) : List Token :=
  r.replies.filterMap Reply.token?

/-- The tokens given so far, and those held back. -/
def shown (r : Run) : List Token :=
  r.tokens ++ r.stream.buffer

/-- The run of some number of requests. -/
def of (s : Stream) (source : Source) : Nat → Run
  | 0 => start s source
  | n + 1 => (of s source n).next

/-- **What holds in front of all requests and outlives each holds behind any number of them.** -/
theorem induction {P : Run → Prop} {s : Stream} {source : Source} (hstart : P (start s source))
    (hnext : ∀ r, P r → P r.next) : ∀ n, P (of s source n)
  | 0 => hstart
  | n + 1 => hnext _ (induction hstart hnext n)

theorem tokens_next (r : Run) : r.next.tokens = r.tokens ++ (r.stream.next r.rest).reply.token?.toList := by
  simp only [tokens, next, List.filterMap_append]
  cases h : (r.stream.next r.rest).reply.token? <;> simp [h]

end Run
end Offside
