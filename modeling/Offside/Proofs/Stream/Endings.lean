import Offside.Proofs.Stream.LineByLine
import Offside.Proofs.Stream.Nesting
/-!
# How a stream ends

A stream has two ends.  An indentation that fits no level stops it, and the end of its source, once a request has found
it, is the end of the stream.  Neither is ever left: whatever is called from then on, in whatever order, the stream and
what its source has left stay as they are, and every call gives one answer (`ends_for_good`).

Beside single requests there are other calls: a loop asks for one token after another, a list takes all there are, and a
stream that has its token types refuses to be given new ones.  A list is a number of requests (`exists_last_request`),
so that everything is proved of a request first.
-/
namespace Offside

/-! ## Calls -/

/-- What a stream can be called for: its next token, the next token of a loop, all its tokens, or to learn its token
types. -/
inductive Call where
  | next
  | iterate
  | list
  | configure (indent dedent newline : Datum)
deriving DecidableEq

/-- What a call comes to. -/
inductive Answer where
  | token (t : Token)
  | nothing
  /-- A loop ends here. -/
  | over
  /-- The tokens of a list, and the fault that interrupted it, if one did. -/
  | listed (ts : List Token) (fault : Option Fault)
  | configured
  | raised (f : Fault)
deriving DecidableEq

/-- A reply where there is an answer of its own for no token. -/
def Answer.ofReply (none : Answer) : Reply → Answer
  | .token t => .token t
  | .fault f => .raised f
  | .gap | .done => none

def Answer.fault? : Answer → Option Fault
  | .raised f => some f
  | .listed _ fault => fault
  | _ => none

/-- Whether a call found that there is no token. -/
def Answer.isEnd : Answer → Bool
  | .nothing | .over | .listed _ none => true
  | _ => false

/-- A stream, and what its source has left. -/
structure Flow where
  stream : Stream
  rest : Source
deriving DecidableEq

theorem Reply.eq_fault_of_fault? {r : Reply} {f : Fault} (h : r.fault? = some f) : r = .fault f := by
  cases r with
  | fault g => exact congrArg Reply.fault (Option.some.inj h)
  | token | gap | done => cases h

namespace Flow

def ofStep (step : Step) : Flow :=
  ⟨step.stream, step.rest⟩

def request (x : Flow) : Step :=
  x.stream.next x.rest

def call (x : Flow) : Call → Answer × Flow
  | .next => (.ofReply .nothing x.request.reply, .ofStep x.request)
  | .iterate => (.ofReply .over x.request.reply, .ofStep x.request)
  | .list =>
    let d := x.stream.drain x.rest
    (.listed d.tokens d.fault, ⟨d.stream, d.rest⟩)
  | .configure indent dedent newline =>
    match x.stream.configure indent dedent newline with
    | .ok stream => (.configured, { x with stream })
    | .error e => (.raised (.config e), x)

def after (x : Flow) (calls : List Call) : Flow :=
  calls.foldl (fun x call => (x.call call).2) x

def requests (x : Flow) : Nat → Flow
  | 0 => x
  | n + 1 => (ofStep x.request).requests n

/-- **What holds in front of all calls and outlives each holds behind any number of them.** -/
theorem after_induction {P : Flow → Prop} (hcall : ∀ x call, P x → P (x.call call).2) (calls : List Call) :
    ∀ {x : Flow}, P x → P (x.after calls) := by
  induction calls with
  | nil => exact fun h => h
  | cons call calls ih => exact fun {x} h => ih (hcall x call h)

theorem after_eq_self {x : Flow} (h : ∀ call, (x.call call).2 = x) (calls : List Call) : x.after calls = x :=
  after_induction (P := (· = x)) (fun _ call hy => by rw [hy, h call]) calls rfl

/-- **A list is a number of requests**: all but the last give its tokens, and the last gives none.  What outlives each
request that gives a token holds in front of the last. -/
theorem exists_last_request {P : Flow → Prop} (htoken : ∀ y t, P y → y.request.reply = .token t → P (ofStep y.request))
    {x : Flow} (hx : P x) : ∃ n, let y := x.requests n
    P y ∧ (∀ t, y.request.reply ≠ .token t) ∧
      (x.call .list).1.fault? = y.request.reply.fault? ∧ (x.call .list).2 = ofStep y.request := by
  obtain ⟨s, source⟩ := x
  -- on the requests that a list makes, of which only the last gives no token
  fun_induction Stream.steps s source with
  | case1 s source t h ih =>
    obtain ⟨n, hn, hlast, hfault, hflow⟩ := ih (htoken _ t hx h)
    have hd : s.drain source = _ := Stream.drain_of_token h
    refine ⟨n + 1, hn, hlast, Eq.trans ?_ hfault, Eq.trans ?_ hflow⟩
    · simp only [call, hd, Answer.fault?]
    · simp only [call, hd]
  | case2 s source h =>
    have hd : s.drain source = _ := Stream.drain_of_not_token h
    refine ⟨0, hx, h, ?_, ?_⟩
    · simp only [call, hd, Answer.fault?]
      rfl
    · simp only [call, hd]
      rfl

theorem call_induction {P : Flow → Prop} (hconfig : ∀ x, P x → x.stream.config ≠ none)
    (hrequest : ∀ x, P x → P (ofStep x.request)) (x : Flow) (call : Call) (h : P x) : P (x.call call).2 := by
  cases call with
  | next => exact hrequest x h
  | iterate => exact hrequest x h
  | list =>
    obtain ⟨n, hn, -, -, hflow⟩ := exists_last_request (fun y _ hy _ => hrequest y hy) h
    rw [hflow]
    exact hrequest _ hn
  | configure indent dedent newline =>
    obtain ⟨cfg, hc⟩ := Option.ne_none_iff_exists'.1 (hconfig x h)
    simpa [call, Stream.configure, hc] using h

end Flow

/-! ## Requests -/

theorem fault_of_broken {cfg : Config} {f : Fault} {rest : Source} (newline : Token) (whitespace : List Token)
    (source : Source) : scanFrom cfg newline whitespace source = .broken f rest →
      .fault f ∈ source ∨ ∃ e, f = .kind e := by
  fun_induction scanFrom cfg newline whitespace source with
  | case1 | case2 | case3 | case8 =>
    intro h
    cases h
  | case4 =>
    intro h
    cases h
    exact .inl List.mem_cons_self
  | case5 newline whitespace t source e hk =>
    intro h
    cases h
    exact .inr ⟨e, rfl⟩
  | case6 newline whitespace t source hc ih =>
    intro h
    cases hr : scanFrom cfg t [] source with
    | found scan ended rest' =>
      rw [hr] at h
      cases h
    | broken g rest' =>
      rw [hr] at h
      cases h
      exact (ih hr).imp_left (List.mem_cons_of_mem _)
  | case7 newline whitespace t source hc ih => exact fun h => (ih h).imp_left (List.mem_cons_of_mem _)
  | case9 newline whitespace t source hc e hm =>
    intro h
    cases h
    exact .inr ⟨e, rfl⟩

namespace Stream

variable {cfg : Config} {s : Stream} {source : Source}

theorem reply_emit (s : Stream) (rest : Source) (notes : List Note) :
    (s.emit rest notes).reply = .done ∨ ∃ t, (s.emit rest notes).reply = .token t := by
  unfold emit
  split
  · exact .inl rfl
  · exact .inr ⟨_, rfl⟩

theorem reply_emit_ne_fault (s : Stream) (rest : Source) (notes : List Note) (f : Fault) :
    (s.emit rest notes).reply ≠ .fault f := by
  rcases reply_emit s rest notes with h | ⟨t, h⟩ <;> rw [h] <;> nofun

theorem reply_emit_ne_gap (s : Stream) (rest : Source) (notes : List Note) : (s.emit rest notes).reply ≠ .gap := by
  rcases reply_emit s rest notes with h | ⟨t, h⟩ <;> rw [h] <;> nofun

@[simp]
theorem stopped_emit (s : Stream) (rest : Source) (notes : List Note) :
    (s.emit rest notes).stream.stopped = s.stopped := by
  unfold emit
  split <;> rfl

/-- A scan whose line is refused leaves the stream as it was, but that it is stopped. -/
theorem settle_refused {newline : Token} {scan : LineScan Token} {rest : Source} {e : IndentError}
    (h : (s.settle cfg newline scan rest).reply = .fault (.indent e)) :
    (s.settle cfg newline scan rest).stream = { s with stopped := some e } ∧ scan.length.isZero = false := by
  have hrefused (h : (s.levels.reconcile cfg.kinds scan.length scan.content).1 = .error (.indent e)) :=
    Levels.reconcile_refused h
  unfold settle at h ⊢
  generalize s.levels.reconcile cfg.kinds scan.length scan.content = outcome at h hrefused ⊢
  obtain ⟨result, levels⟩ := outcome
  dsimp only at h hrefused ⊢
  split at h
  · cases h
    obtain ⟨rfl, hlength⟩ := hrefused rfl
    exact ⟨rfl, hlength⟩
  · rename_i hne
    cases h
    exact absurd rfl (hne e)
  · exact absurd h (reply_emit_ne_fault _ _ _ _)

theorem unit_settle (h : s.levels.unit.isZero = false) (newline : Token) (scan : LineScan Token) (rest : Source) :
    (s.settle cfg newline scan rest).stream.levels.unit = s.levels.unit := by
  have hunit : (s.levels.reconcile cfg.kinds scan.length scan.content).2.unit = s.levels.unit :=
    Levels.unit_reconcile h scan.length
  unfold settle
  dsimp only
  split
  · exact hunit
  · exact hunit
  · rw [levels_emit]
    exact hunit

end Stream

namespace Request

variable {cfg : Config} {s : Stream} {source : Source} {step : Step}

/-- **An indentation that is refused stops the stream and does nothing else to it.** -/
theorem refused (h : Request cfg s source step) (hs : s.stopped = none)
    (hsource : ∀ e, .fault (.indent e) ∉ source) {e : IndentError} (hr : step.reply = .fault (.indent e)) :
    s.buffer = [] ∧ step.stream = { s with stopped := some e } := by
  cases h with
  | stopped he =>
    rw [hs] at he
    cases he
  | held | passed => cases hr
  | closed => exact absurd hr (Stream.reply_emit_ne_fault _ _ _ _)
  | broken he hb hx hf =>
    cases hr
    cases hf with
    | now => exact absurd List.mem_cons_self (hsource e)
    | scanning hc hscan =>
      rcases fault_of_broken _ _ _ hscan with hmem | ⟨k, hk⟩
      · exact absurd (List.mem_cons_of_mem _ hmem) (hsource e)
      · cases hk
  | @scanned t source rest scan ended he hb hx hc hscan =>
    obtain ⟨hstream, hlength⟩ := Stream.settle_refused hr
    -- a scan up to the end of the source measures nothing, and nothing is never refused
    cases ended with
    | true =>
      rw [length_of_ended _ _ _ _ hscan] at hlength
      cases hlength
    | false =>
      rw [hstream, ← hx]
      exact ⟨hb, rfl⟩

/-- A gap of the source is never passed on: it closes the levels, and what there is to give is given. -/
theorem reply_ne_gap (h : Request cfg s source step) : step.reply ≠ .gap := by
  cases h with
  | stopped | held | broken | passed => nofun
  | closed => exact Stream.reply_emit_ne_gap _ _ _
  | scanned =>
    unfold Stream.settle
    dsimp only
    split
    · nofun
    · nofun
    · exact Stream.reply_emit_ne_gap _ _ _

theorem stopped_eq_none (h : Request cfg s source step) (hr : ∀ f, step.reply ≠ .fault f) :
    step.stream.stopped = none := by
  cases h with
  | stopped => exact absurd rfl (hr _)
  | held he | broken he | passed he => exact he
  | closed he =>
    rw [Stream.close, Stream.stopped_emit]
    exact he
  | scanned he =>
    unfold Stream.settle at hr ⊢
    dsimp only at hr ⊢
    split at hr
    · exact absurd rfl (hr _)
    · exact absurd rfl (hr _)
    · rw [Stream.stopped_emit]
      exact he

theorem unit_eq (h : Request cfg s source step) (hs : s.levels.unit.isZero = false) :
    step.stream.levels.unit = s.levels.unit := by
  cases h with
  | closed =>
    rw [Stream.close, Stream.levels_emit]
    rfl
  | @scanned t source rest scan ended =>
    exact Stream.unit_settle (s := { s with exhausted := ended }) hs t scan rest
  | stopped | held | broken | passed => rfl

end Request

/-! ## The two ends -/

/-- What a call comes to where every request is given one reply, which is no token. -/
def Call.answerTo (reply : Reply) : Call → Answer
  | .next => .ofReply .nothing reply
  | .iterate => .ofReply .over reply
  | .list => .listed [] reply.fault?
  | .configure .. => .raised (.config .alreadyConfigured)

namespace Flow

variable {cfg : Config} {x : Flow}

/-- Whatever is called from now on, every request is given one reply, and nothing changes. -/
def Rests (x : Flow) (reply : Reply) : Prop :=
  ∀ calls call, (x.after calls).call call = (call.answerTo reply, x)

theorem rests_of_request {reply : Reply} (hc : x.stream.config = some cfg) (hreply : ∀ t, reply ≠ .token t)
    (h : x.request = ⟨reply, x.stream, x.rest, []⟩) : x.Rests reply := by
  have hcall : ∀ call, x.call call = (call.answerTo reply, x) := by
    rintro (_ | _ | _ | _)
    · rw [call, h]
      rfl
    · rw [call, h]
      rfl
    · have hd : x.stream.drain x.rest = _ := Stream.drain_of_not_token (by
        rw [show (x.stream.next x.rest).reply = reply from congrArg Step.reply h]
        exact hreply)
      rw [show x.stream.next x.rest = _ from h] at hd
      rw [call, hd]
      rfl
    · simp only [call, Stream.configure, hc]
      rfl
  have hafter : ∀ calls, x.after calls = x := after_eq_self fun call => by rw [hcall]
  intro calls call
  rw [hafter, hcall]

theorem rests_of_stopped {s : Stream} (hc : s.config = some cfg) (e : IndentError) (rest : Source) :
    (Flow.mk { s with stopped := some e } rest).Rests (.fault (.indent e)) := by
  obtain ⟨policy, whitespace, unit, config, levels, buffer, exhausted, stopped⟩ := s
  subst hc
  exact rests_of_request rfl nofun rfl

/-- A stream that has no level open, nothing held back and a source that is over rests. -/
theorem rests_of_exhausted (hc : x.stream.config = some cfg) (he : x.stream.stopped = none)
    (hb : x.stream.buffer = []) (hx : x.stream.exhausted = true) (hd : x.stream.levels.depth = 0) :
    x.Rests .done := by
  refine rests_of_request hc nofun ?_
  obtain ⟨⟨policy, whitespace, unit, config, ⟨width, ⟨pending⟩⟩, buffer, exhausted, stopped⟩, rest⟩ := x
  obtain rfl : pending = [] := List.length_eq_zero_iff.1 hd
  subst hc he hb hx
  rfl

/-- What a run of calls keeps: the stream has its token types, and its source is what is left of the one it began
with. -/
structure Serves (cfg : Config) (source : Source) (x : Flow) : Prop where
  config : x.stream.config = some cfg
  rest : x.rest <:+ source

variable {source : Source}

theorem Serves.request (h : x.Serves cfg source) : (ofStep x.request).Serves cfg source :=
  ⟨(Stream.request_next h.config x.rest).config_eq.trans h.config, (Stream.rest_next_suffix _ _).trans h.rest⟩

theorem Serves.after (h : x.Serves cfg source) (calls : List Call) : (x.after calls).Serves cfg source :=
  after_induction (call_induction (fun y hy => by rw [hy.config]; nofun) fun y hy => hy.request) calls h

/-- What comes of a call comes of a request: of the one that it makes, or of the last one of a list. -/
theorem exists_request_of_call {P : Flow → Prop} (htoken : ∀ y t, P y → y.request.reply = .token t → P (ofStep y.request))
    (hx : P x) (hc : x.stream.config = some cfg) (call : Call) :
    (x.call call).1 = .raised (.config .alreadyConfigured) ∨ ∃ n, (call ≠ .list → n = 0) ∧
      let y := x.requests n
      P y ∧ (x.call call).2 = ofStep y.request ∧ (x.call call).1.fault? = y.request.reply.fault? ∧
        ((x.call call).1.isEnd = true → y.request.reply = .gap ∨ y.request.reply = .done) := by
  have hone {none : Answer} (hnone : none.fault? = Option.none) :
      (Answer.ofReply none x.request.reply).fault? = x.request.reply.fault? ∧
        ((Answer.ofReply none x.request.reply).isEnd = true → x.request.reply = .gap ∨ x.request.reply = .done) := by
    cases x.request.reply with
    | token t => exact ⟨rfl, nofun⟩
    | fault f => exact ⟨rfl, nofun⟩
    | gap => exact ⟨hnone, fun _ => .inl rfl⟩
    | done => exact ⟨hnone, fun _ => .inr rfl⟩
  cases call with
  | next => exact .inr ⟨0, fun _ => rfl, hx, rfl, hone rfl⟩
  | iterate => exact .inr ⟨0, fun _ => rfl, hx, rfl, hone rfl⟩
  | list =>
    obtain ⟨n, hn, hlast, hfault, hflow⟩ := exists_last_request htoken hx
    refine .inr ⟨n, fun h => absurd rfl h, hn, hflow, hfault, fun hend => ?_⟩
    have hnone : (x.requests n).request.reply.fault? = none := by
      rw [← hfault]
      simp only [call, Answer.fault?]
      simp only [call, Answer.isEnd] at hend
      split at hend <;> simp_all
    cases hr : (x.requests n).request.reply with
    | token t => exact absurd hr (hlast t)
    | fault f =>
      rw [hr] at hnone
      cases hnone
    | gap => exact .inl rfl
    | done => exact .inr rfl
  | configure indent dedent newline =>
    left
    simp only [call, Stream.configure, hc]

end Flow

/-- **A stream ends for good.**  Let it be called for anything, any number of times, over any source.  (a) Where its
source does not fail for an indentation of its own, a call that ends in the error of an indentation does so in a request
with nothing held back, and that request changes nothing but that the stream is stopped; the call is that request,
unless it is a list, which makes some requests before.  From then on every request fails with the same error.
(b) Where a call has found no token and the source is over, no level is open and nothing held back, and every request
finds no token from then on.  In both cases nothing that is called changes the stream or takes anything from the source.
(c) A unit that is not zero stays as it is. -/
theorem Stream.ends_for_good (cfg : Config) (source : Source) (calls : List Call) :
    let x := (Flow.mk (.ofConfig cfg) source).after calls
    ((∀ e, .fault (.indent e) ∉ source) → x.stream.stopped = none →
      ∀ call e, (x.call call).1.fault? = some (.indent e) → ∃ n, (call ≠ .list → n = 0) ∧
        let y := x.requests n
        y.stream.buffer = [] ∧ y.request.reply = .fault (.indent e) ∧
          (x.call call).2 = ⟨{ y.stream with stopped := some e }, y.request.rest⟩ ∧
          (x.call call).2.Rests (.fault (.indent e))) ∧
    (∀ call, (x.call call).1.isEnd = true → (x.call call).2.stream.exhausted = true →
      (x.call call).2.stream.levels.depth = 0 ∧ (x.call call).2.stream.buffer = [] ∧ (x.call call).2.Rests .done) ∧
    (x.stream.levels.unit.isZero = false →
      ∀ later, (x.after later).stream.levels.unit = x.stream.levels.unit) := by
  intro x
  have hx : x.Serves cfg source := Flow.Serves.after ⟨rfl, List.suffix_refl source⟩ calls
  refine ⟨fun hsource hs call e he => ?_, fun call hend hover => ?_, fun hu later => ?_⟩
  · have htoken (y : Flow) (t : Token) (hy : y.Serves cfg source ∧ y.stream.stopped = none)
        (hr : y.request.reply = .token t) :
        (Flow.ofStep y.request).Serves cfg source ∧ (Flow.ofStep y.request).stream.stopped = none :=
      ⟨hy.1.request, (Stream.request_next hy.1.config y.rest).stopped_eq_none fun f hf => by cases hr.symm.trans hf⟩
    rcases Flow.exists_request_of_call htoken ⟨hx, hs⟩ hx.config call with hraised | ⟨n, hn, ⟨hy, hys⟩, hflow, hfault, -⟩
    · rw [hraised] at he
      cases he
    · let y := x.requests n
      have hr : y.request.reply = .fault (.indent e) := Reply.eq_fault_of_fault? (hfault.symm.trans he)
      have hreq := Stream.request_next hy.config y.rest
      obtain ⟨hb, hstream⟩ := hreq.refused hys (fun e he => hsource e (hy.rest.subset he)) hr
      have hstopped : (x.call call).2 = ⟨{ y.stream with stopped := some e }, y.request.rest⟩ := by
        rw [hflow, Flow.ofStep]
        exact congrArg (Flow.mk · y.request.rest) hstream
      refine ⟨n, hn, hb, hr, hstopped, ?_⟩
      rw [hstopped]
      exact Flow.rests_of_stopped hy.config e y.request.rest
  · rcases Flow.exists_request_of_call (fun y _ hy _ => hy.request) hx hx.config call with
      hraised | ⟨n, -, hy, hflow, -, hreply⟩
    · rw [hraised] at hend
      cases hend
    · have hreq := Stream.request_next hy.config (x.requests n).rest
      have hdone := (hreply hend).resolve_left hreq.reply_ne_gap
      obtain ⟨hb, hd⟩ := hreq.empty_of_done hdone
      have hs := hreq.stopped_eq_none fun f hf => by cases hdone.symm.trans hf
      rw [hflow] at hover ⊢
      exact ⟨hd, hb, Flow.rests_of_exhausted hy.request.config hs hb hover hd⟩
  · have hkeeps (y : Flow) (h : y.Serves cfg source ∧ y.stream.levels.unit = x.stream.levels.unit) :
        (Flow.ofStep y.request).Serves cfg source ∧
          (Flow.ofStep y.request).stream.levels.unit = x.stream.levels.unit :=
      ⟨h.1.request, ((Stream.request_next h.1.config y.rest).unit_eq (by rw [h.2, hu])).trans h.2⟩
    exact (Flow.after_induction (Flow.call_induction (fun y hy => by rw [hy.1.config]; nofun) hkeeps) later ⟨hx, rfl⟩).2

/-- A stream that is stopped with two levels open, and one that is over behind a gap and a lost scan. -/
theorem Stream.ends_for_good_both :
    let x := (Flow.mk (.ofConfig (wordConfig .before 0)) (Source.ofTokens misalignedTokens)).after
      (List.replicate 9 .next)
    let y := (Flow.mk (.ofConfig (wordConfig .before 2)) interruptedSource).after (List.replicate 14 .next)
    x.stream.levels.depth = 2 ∧ (x.call .iterate).2.Rests (.fault (.indent ⟨.int 6, .int 4, .null, .int 7⟩)) ∧
      y.stream.levels.depth = 0 ∧ (y.call .iterate).2.Rests .done := by
  intro x y
  have hsource : ∀ e, .fault (.indent e) ∉ Source.ofTokens misalignedTokens := fun e he => by
    obtain ⟨t, -, ht⟩ := List.mem_map.1 he
    cases ht
  obtain ⟨hstopped, -, -⟩ := Stream.ends_for_good (wordConfig .before 0) (Source.ofTokens misalignedTokens)
    (List.replicate 9 .next)
  obtain ⟨-, hover, -⟩ := Stream.ends_for_good (wordConfig .before 2) interruptedSource (List.replicate 14 .next)
  obtain ⟨n, -, -, -, -, hrests⟩ := hstopped hsource (by decide +kernel) .iterate
    ⟨.int 6, .int 4, .null, .int 7⟩ (by decide +kernel)
  obtain ⟨-, -, hend⟩ := hover .iterate (by decide +kernel) (by decide +kernel)
  exact ⟨by decide +kernel, hrests, by decide +kernel, hend⟩

end Offside
