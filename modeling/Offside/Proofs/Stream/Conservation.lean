import Offside.Proofs.Stream.Nesting
import Offside.Proofs.Stream.Windows
/-!
# What a stream takes and what it keeps

A token goes from the source into a scan, from there to the buffer and from the buffer to whoever asks, and on each of
these ways it might be lost, or come out twice or in another place.  It does not: the tokens given and held back are
those taken from the source, less the white space that the policy skips, less what a scan took that ended in a fault,
and less a token of which it cannot be told what it is (`tokens_conserved`).

What a request takes can be read off the replies in front of it (`Config.taken`), without looking at the stream.  So
it is known that a scan stops at the first token with content and takes nothing behind it.
-/
namespace Offside

/-! ## The replies of a scan -/

def Source.tokens (source : Source) : List Token :=
  source.filterMap Reply.token?

/-- Whether a reply can stand between a line break and the next content. -/
def Config.isGapReply (cfg : Config) (r : Reply) : Bool :=
  r.token?.any cfg.isGap

/-- What a request takes from its source, if it asks it: one reply, and behind a line break all line breaks and white
space and the reply that ends the scan. -/
def Config.taken (cfg : Config) : Source → Source
  | .token t :: rest =>
    if cfg.classify t = .newline then
      .token t :: rest.takeWhile cfg.isGapReply ++ (rest.dropWhile cfg.isGapReply).take 1
    else [.token t]
  | source => source.take 1

/-- The window that begins at a line break: all line breaks and white space that come next, and what comes behind. -/
def Config.window (cfg : Config) (newline : Token) (source : Source) (content : Option Token) : Window :=
  ⟨newline, Source.tokens (source.takeWhile cfg.isGapReply), content⟩

/-- Whether a stream asks its source when it is asked. -/
def Stream.asks (s : Stream) : Bool :=
  s.stopped.isNone && s.buffer.isEmpty && !s.exhausted

/-- The tokens that a request leaves in the stream of those it took: none where it ends in a fault, and otherwise all,
less the white space behind a line break if white space is skipped. -/
def Config.kept (cfg : Config) (reply : Reply) : List Token → List Token
  | [] => []
  | t :: ts =>
    match reply, cfg.policy with
    | .fault _, _ => []
    | _, .skip => t :: if cfg.classify t = .newline then ts.filter (fun u => !cfg.isWhitespace u) else ts
    | _, _ => t :: ts

section
variable {cfg : Config}

theorem isGapReply_of_gap {t : Token} (hc : cfg.classify t ≠ .other) : cfg.isGapReply (.token t) = true := by
  simpa [Config.isGapReply, Reply.token?, Config.isGap] using hc

theorem isGapReply_of_other {t : Token} (hc : cfg.classify t = .other) : ¬ cfg.isGapReply (.token t) = true := by
  simp [Config.isGapReply, Reply.token?, Config.isGap, hc]

theorem isGapReply_of_unknown {t : Token} {e : KindError} (hk : cfg.classOf t = .error e) :
    ¬ cfg.isGapReply (.token t) = true :=
  isGapReply_of_other (Config.classify_of_unknown hk)

theorem scanFrom_taken (newline : Token) (whitespace : List Token) (source : Source) :
    (scanFrom cfg newline whitespace source).rest = (source.dropWhile cfg.isGapReply).drop 1 := by
  fun_induction scanFrom cfg newline whitespace source with
  | case1 | case2 | case3 | case4 => rfl
  | case5 newline whitespace t rest e hk =>
    rw [List.dropWhile_cons_of_neg (isGapReply_of_unknown hk)]
    rfl
  | case6 newline whitespace t rest hc ih =>
    have hnewline : cfg.classify t = .newline := Config.classify_of_classOf hc
    have hgap : cfg.isGapReply (.token t) = true := isGapReply_of_gap (by rw [hnewline]; decide)
    rw [ScanResult.rest_behindBlank, ih, List.dropWhile_cons_of_pos hgap]
  | case7 newline whitespace t rest hc ih =>
    have hwhitespace : cfg.classify t = .whitespace := Config.classify_of_classOf hc
    have hgap : cfg.isGapReply (.token t) = true := isGapReply_of_gap (by rw [hwhitespace]; decide)
    rw [ih, List.dropWhile_cons_of_pos hgap]
  | case8 newline whitespace t rest hc | case9 newline whitespace t rest hc =>
    rw [List.dropWhile_cons_of_neg (isGapReply_of_other (Config.classify_of_classOf hc))]
    rfl

theorem tokens_append (source more : Source) :
    Source.tokens (source ++ more) = Source.tokens source ++ Source.tokens more :=
  List.filterMap_append

theorem tokens_takeWhile_isGapReply (cfg : Config) (source : Source) :
    Source.ofTokens (Source.tokens (source.takeWhile cfg.isGapReply)) = source.takeWhile cfg.isGapReply ∧
      ∀ t ∈ Source.tokens (source.takeWhile cfg.isGapReply), cfg.isGap t = true := by
  induction source with
  | nil => exact ⟨rfl, nofun⟩
  | cons r source ih =>
    by_cases hr : cfg.isGapReply r = true
    · rw [List.takeWhile_cons_of_pos hr]
      cases r with
      | token t =>
        refine ⟨congrArg (Reply.token t :: ·) ih.1, List.forall_mem_cons.2 ⟨hr, ih.2⟩⟩
      | gap | done | fault _ => cases hr
    · rw [List.takeWhile_cons_of_neg hr]
      exact ⟨rfl, nofun⟩

/-- A scan takes in the line breaks and white space that come next, and goes on in their last line. -/
theorem scanLine_gap (cfg : Config) (newline : Token) (source : Source) (content : Option Token) :
    let w := cfg.window newline source content
    ∃ lines, BlankOf cfg lines (w.blank cfg) ∧ scanLine cfg newline source =
      (scanFrom cfg (w.lastBreak cfg) (w.indent cfg) (source.dropWhile cfg.isGapReply)).behindLines lines := by
  intro w
  obtain ⟨hgap, hall⟩ := tokens_takeWhile_isGapReply cfg source
  have hsource : Source.ofTokens w.gap ++ source.dropWhile cfg.isGapReply = source :=
    (congrArg (· ++ _) hgap).trans List.takeWhile_append_dropWhile
  obtain ⟨lines, hlines, heq⟩ := scanFrom_gap cfg (source.dropWhile cfg.isGapReply) w.gap hall newline [] (by simp)
  refine ⟨lines, hlines, ?_⟩
  rwa [hsource] at heq

theorem other_of_behind {t : Token} {source behind : Source} (h : source.dropWhile cfg.isGapReply = .token t :: behind) :
    cfg.classify t = .other := by
  have hnot := head_dropWhile cfg.isGapReply source (.token t) (by rw [h]; rfl)
  simpa [Config.isGapReply, Reply.token?, Config.isGap] using hnot

/-- What a scan finds is the window that the tokens it takes make up. -/
theorem window_of_found {newline : Token} {source rest : Source} {scan : LineScan Token} {ended : Bool}
    (h : scanLine cfg newline source = .found scan ended rest) :
    let w := cfg.window newline source scan.content
    BlankOf cfg scan.blankLines (w.blank cfg) ∧ scan.whitespace = w.indent cfg ∧
      (∀ t ∈ w.content, cfg.classify t = .other) ∧
      w.gap ++ w.content.toList =
        Source.tokens (source.takeWhile cfg.isGapReply ++ (source.dropWhile cfg.isGapReply).take 1) := by
  have hempty {t : Token} (ht : t ∈ (none : Option Token)) : cfg.classify t = .other := by cases ht
  obtain ⟨lines, hlines, heq⟩ := scanLine_gap cfg newline source none
  rw [heq] at h
  rw [tokens_append]
  cases hbehind : source.dropWhile cfg.isGapReply with
  | nil =>
    rw [hbehind] at h
    cases h
    exact ⟨by simpa using hlines, rfl, fun _ => hempty, rfl⟩
  | cons r behind =>
    rw [hbehind] at h
    cases r with
    | done | gap =>
      cases h
      exact ⟨by simpa using hlines, rfl, fun _ => hempty, rfl⟩
    | fault f => cases h
    | token t =>
      have hc := other_of_behind hbehind
      cases hk : cfg.classOf t with
      | error e =>
        rw [scanFrom_unknown _ _ _ hk] at h
        cases h
      | ok c =>
        obtain rfl : c = .other := (Config.classify_of_classOf hk).symm.trans hc
        cases hm : LineScan.measure ((cfg.window newline source none).lastBreak cfg)
            ((cfg.window newline source none).indent cfg) t with
        | error e =>
          rw [scanFrom_unmeasured _ _ _ hk hm] at h
          cases h
        | ok length =>
          rw [scanFrom_content _ _ _ hk hm] at h
          cases h
          refine ⟨?_, rfl, ?_, rfl⟩
          · rw [List.append_nil]
            exact hlines
          · rintro u ⟨⟩
            exact hc

theorem unmarked_arrange {newline : Token} {scan : LineScan Token} {w : Window} {markers : List Token}
    (hlines : BlankOf cfg scan.blankLines (w.blank cfg)) (hindent : scan.whitespace = w.indent cfg)
    (hcontent : scan.content = w.content) (hother : ∀ t ∈ w.content, cfg.classify t = .other)
    (hnewline : newline.isMarker = false) (hunmarked : ∀ t ∈ w.gap ++ w.content.toList, t.isMarker = false)
    (hmarkers : ∀ m ∈ markers, m.isMarker = true) :
    (arrange cfg.policy newline scan markers).filter (fun t => !t.isMarker) =
      newline :: if cfg.policy = .skip then (w.gap ++ w.content.toList).filter (fun u => !cfg.isWhitespace u)
        else w.gap ++ w.content.toList := by
  have hgap : w.gap = w.blank cfg ++ w.indent cfg := (List.rdropWhile_append_rtakeWhile ..).symm
  have hnone : markers.filter (fun t => !t.isMarker) = [] := List.filter_eq_nil_iff.2 fun m hm => by simp [hmarkers m hm]
  have hws : (w.indent cfg).filter (fun u => !cfg.isWhitespace u) = [] := List.filter_eq_nil_iff.2 fun t ht => by
    have : cfg.isWhitespace t = true := List.mem_rtakeWhile_imp ht
    simp [this]
  have hother' : w.content.toList.filter (fun u => !cfg.isWhitespace u) = w.content.toList :=
    List.filter_eq_self.2 fun t ht => by simp [Config.isWhitespace, hother t (Option.mem_toList.1 ht)]
  have hkeep {ts : List Token} (hts : ts ⊆ w.gap ++ w.content.toList) : ts.filter (fun t => !t.isMarker) = ts :=
    List.filter_eq_self.2 fun t ht => by simp [hunmarked t (hts ht)]
  have hblank : (w.blank cfg).filter (fun t => !t.isMarker) = w.blank cfg := hkeep fun t ht => by simp [hgap, ht]
  have hbreaks : ((w.blank cfg).filter (fun u => !cfg.isWhitespace u)).filter (fun t => !t.isMarker) =
      (w.blank cfg).filter (fun u => !cfg.isWhitespace u) := hkeep fun t ht => by simp [hgap, (List.mem_filter.1 ht).1]
  have hindent' : (w.indent cfg).filter (fun t => !t.isMarker) = w.indent cfg := hkeep fun t ht => by simp [hgap, ht]
  have hcontent' : w.content.toList.filter (fun t => !t.isMarker) = w.content.toList := hkeep fun t ht => by simp [ht]
  unfold arrange
  rw [hindent, hcontent]
  cases cfg.policy with
  | before => simp [hlines.1, hnewline, hnone, hblank, hindent', hcontent', hgap]
  | after => simp [hlines.1, hnewline, hnone, hblank, hindent', hcontent', hgap]
  | skip => simp [hlines.2, hnewline, hnone, hbreaks, hcontent', hgap, hws, hother']

end

namespace Stream

variable {cfg : Config} {s : Stream}

theorem policy_emit (s : Stream) (rest : Source) (notes : List Note) :
    (s.emit rest notes).stream.policy = s.policy := by
  unfold emit
  split <;> rfl

theorem policy_settle (s : Stream) (cfg : Config) (newline : Token) (scan : LineScan Token) (rest : Source) :
    (s.settle cfg newline scan rest).stream.policy = s.policy := by
  unfold settle
  dsimp only
  split
  · rfl
  · rfl
  · rw [policy_emit]

theorem settle_onlyMarkers (h : ∀ m ∈ s.levels.ledger.pending, m.isMarker = true) (newline : Token)
    (scan : LineScan Token) (rest : Source) :
    ∀ m ∈ (s.settle cfg newline scan rest).stream.levels.ledger.pending, m.isMarker = true := by
  have hm : Levels.OnlyMarkers (s.levels.reconcile cfg.kinds scan.length scan.content) :=
    Levels.reconcile_onlyMarkers h scan.length
  unfold settle
  dsimp only
  split
  · exact hm.pending
  · exact hm.pending
  · rw [levels_emit]
    exact hm.pending

theorem reply_emit_of_cons {t : Token} {buffer : List Token} (hb : s.buffer = t :: buffer) (rest : Source)
    (notes : List Note) : (s.emit rest notes).reply = .token t := by
  unfold emit
  rw [hb]

theorem kept_settle (hpolicy : s.policy = cfg.policy) (hbuffer : s.buffer = [])
    (hledger : ∀ m ∈ s.levels.ledger.pending, m.isMarker = true) {newline : Token} {scan : LineScan Token}
    {w : Window} (hc : cfg.classify newline = .newline) (hlines : BlankOf cfg scan.blankLines (w.blank cfg))
    (hindent : scan.whitespace = w.indent cfg) (hcontent : scan.content = w.content)
    (hother : ∀ t ∈ w.content, cfg.classify t = .other) (hnewline : newline.isMarker = false)
    (hunmarked : ∀ t ∈ w.gap ++ w.content.toList, t.isMarker = false) (rest : Source) :
    (s.settle cfg newline scan rest).shown.filter (fun t => !t.isMarker) =
      cfg.kept (s.settle cfg newline scan rest).reply (newline :: (w.gap ++ w.content.toList)) := by
  have hm : Levels.OnlyMarkers (s.levels.reconcile cfg.kinds scan.length scan.content) :=
    Levels.reconcile_onlyMarkers hledger scan.length
  unfold settle
  dsimp only
  split
  · simp [Step.shown, Reply.token?, hbuffer, Config.kept]
  · simp [Step.shown, Reply.token?, hbuffer, Config.kept]
  · rename_i markers hok
    have harrange := unmarked_arrange hlines hindent hcontent hother hnewline hunmarked (hm.given markers hok)
    rw [shown_emit, hpolicy, harrange]
    have hreply (s' : Stream) (hs : s'.buffer = arrange cfg.policy newline scan markers) (notes : List Note) :
        (s'.emit rest notes).reply = .token newline := by
      apply reply_emit_of_cons
      rw [hs]
      rfl
    rw [hreply _ rfl]
    unfold Config.kept
    cases cfg.policy <;> simp [hc]

end Stream

namespace Request

variable {cfg : Config} {s : Stream} {source : Source} {step : Step}

theorem asks_of_idle (he : s.stopped = none) (hb : s.buffer = []) (hx : s.exhausted = false) : s.asks = true := by
  simp [Stream.asks, he, hb, hx]

theorem taken_of_newline {t : Token} (hc : cfg.classify t = .newline) (source : Source) :
    cfg.taken (.token t :: source) ++ (scanLine cfg t source).rest = .token t :: source := by
  have htaken : (source.takeWhile cfg.isGapReply ++ (source.dropWhile cfg.isGapReply).take 1) ++
      (source.dropWhile cfg.isGapReply).drop 1 = source := by
    rw [List.append_assoc, List.take_append_drop, List.takeWhile_append_dropWhile]
  rw [scanLine, scanFrom_taken, Config.taken, if_pos hc, List.cons_append, List.cons_append, htaken]

/-- Where a stream gets no token, it takes the reply that says so, or nothing if it asks no more. -/
theorem taken_of_noToken {ended : Bool} {rest : Source} (he : s.stopped = none) (hb : s.buffer = [])
    (hn : NoToken s source ended rest) :
    (if s.asks then cfg.taken source else []) ++ rest = source ∧
      Source.tokens (if s.asks then cfg.taken source else []) = [] := by
  rcases hn with hx | hx | hx | hx
  · simp [Stream.asks, hx, Source.tokens]
  · rw [asks_of_idle he hb hx]
    exact ⟨rfl, rfl⟩
  · rw [asks_of_idle he hb hx]
    exact ⟨rfl, rfl⟩
  · rw [asks_of_idle he hb hx]
    exact ⟨rfl, rfl⟩

/-- What a request takes and what it leaves make up the source. -/
theorem taken_append_rest (h : Request cfg s source step) :
    (if s.asks then cfg.taken source else []) ++ step.rest = source := by
  cases h with
  | stopped he => simp [Stream.asks, he]
  | held he hb => simp [Stream.asks, hb]
  | closed he hb hn =>
    rw [Stream.rest_close]
    exact (taken_of_noToken he hb hn).1
  | broken he hb hx hf =>
    rw [asks_of_idle he hb hx, if_pos rfl]
    cases hf with
    | now => rfl
    | unknown hk =>
      have hother := Config.classify_of_unknown hk
      rw [Config.taken, if_neg (by simp [hother])]
      rfl
    | @scanning f t source rest hc hs =>
      have := taken_of_newline hc source
      rwa [hs] at this
  | passed he hb hx hc =>
    rw [asks_of_idle he hb hx, if_pos rfl, Config.taken, if_neg hc]
    rfl
  | @scanned t source rest scan ended he hb hx hc hs =>
    rw [asks_of_idle he hb hx, if_pos rfl, Stream.rest_settle]
    have := taken_of_newline hc source
    rwa [hs] at this

theorem policy_eq (h : Request cfg s source step) : step.stream.policy = s.policy := by
  cases h with
  | closed => exact Stream.policy_emit _ _ _
  | scanned => exact Stream.policy_settle _ _ _ _ _
  | stopped | held | broken | passed => rfl

theorem onlyMarkers (h : Request cfg s source step) (hs : ∀ m ∈ s.levels.ledger.pending, m.isMarker = true) :
    ∀ m ∈ step.stream.levels.ledger.pending, m.isMarker = true := by
  cases h with
  | closed =>
    rw [Stream.close, Stream.levels_emit]
    exact fun m hm => absurd hm List.not_mem_nil
  | @scanned t source rest scan ended =>
    exact Stream.settle_onlyMarkers (s := { s with exhausted := ended }) hs t scan rest
  | stopped | held | broken | passed => exact hs

/-- A request keeps what it takes, if it does not end in a fault. -/
theorem kept (h : Request cfg s source step) (hpolicy : s.policy = cfg.policy)
    (hledger : ∀ m ∈ s.levels.ledger.pending, m.isMarker = true)
    (hsource : ∀ t, .token t ∈ source → t.isMarker = false) :
    step.shown.filter (fun t => !t.isMarker) = s.buffer.filter (fun t => !t.isMarker) ++
      cfg.kept step.reply (Source.tokens (if s.asks then cfg.taken source else [])) := by
  cases h with
  | stopped he => simp [Stream.asks, he, Step.shown, Reply.token?, Source.tokens, Config.kept]
  | held he hb => simp [Stream.asks, hb, Step.shown, Reply.token?, Source.tokens, Config.kept]
  | closed he hb hn =>
    have hnone : s.levels.closeAll.1.filter (fun t => !t.isMarker) = [] :=
      List.filter_eq_nil_iff.2 fun m hm => by simp [hledger m hm]
    have htokens : Source.tokens (if s.asks then cfg.taken source else []) = [] := (taken_of_noToken he hb hn).2
    rw [Stream.close, Stream.shown_emit, htokens, hb]
    exact hnone
  | broken he hb hx hf =>
    have hnone : ∀ (f : Fault) (ts : List Token), cfg.kept (.fault f) ts = [] := fun f ts => by
      cases ts <;> rfl
    rw [hnone, hb]
    simp [Step.shown, Reply.token?, hb]
  | @passed t rest he hb hx hc =>
    have ht : t.isMarker = false := hsource t (by simp)
    rw [asks_of_idle he hb hx, if_pos rfl, Config.taken, if_neg hc, hb]
    unfold Config.kept
    cases cfg.policy <;> simp [Step.shown, Source.tokens, Reply.token?, hb, ht]
  | @scanned t source rest scan ended he hb hx hc hs =>
    obtain ⟨hlines, hindent, hother, htokens⟩ := window_of_found hs
    let w := cfg.window t source scan.content
    have hunmarked : ∀ u ∈ w.gap ++ w.content.toList, u.isMarker = false := by
      intro u hu
      rw [htokens] at hu
      obtain ⟨r, hr, hru⟩ := List.mem_filterMap.1 hu
      have hr' : r ∈ source := by
        rcases List.mem_append.1 hr with hr | hr
        · exact (List.takeWhile_sublist _).subset hr
        · exact (List.dropWhile_sublist _).subset (List.take_subset _ _ hr)
      cases r with
      | token v =>
        cases hru
        exact hsource u (List.mem_cons_of_mem _ hr')
      | gap | done | fault _ => cases hru
    have hkept := Stream.kept_settle (s := { s with exhausted := ended }) hpolicy hb hledger hc hlines hindent rfl
      hother (hsource t (by simp)) hunmarked rest
    rw [asks_of_idle he hb hx, if_pos rfl, hkept, hb, Config.taken, if_pos hc, htokens]
    rfl

/-- What a request takes and does not keep belongs to a scan, or is the token of which it cannot be told what it is. -/
theorem newline_of_fault (h : Request cfg s source step) {f : Fault} (hf : step.reply = .fault f) :
    ∀ t ∈ (Source.tokens (if s.asks then cfg.taken source else [])).head?,
      cfg.classify t = .newline ∨ ∃ e, cfg.classOf t = .error e ∧ f = .kind e := by
  cases h with
  | stopped he => simp [Stream.asks, he, Source.tokens]
  | held | passed => cases hf
  | closed he hb hn =>
    rw [(taken_of_noToken he hb hn).2]
    nofun
  | broken he hb hx hbreaks =>
    rw [asks_of_idle he hb hx, if_pos rfl]
    cases hbreaks with
    | now => nofun
    | unknown hk =>
      have hother := Config.classify_of_unknown hk
      rw [Config.taken, if_neg (by simp [hother])]
      rintro u ⟨⟩
      cases hf
      exact .inr ⟨_, hk, rfl⟩
    | scanning hc =>
      rw [Config.taken, if_pos hc]
      rintro u ⟨⟩
      exact .inl hc
  | scanned he hb hx hc =>
    rw [asks_of_idle he hb hx, if_pos rfl, Config.taken, if_pos hc]
    rintro u ⟨⟩
    exact .inl hc

end Request

namespace Run

def reply (r : Run) : Reply :=
  (r.stream.next r.rest).reply

/-- The replies of the source that the next request takes: those that it has and has no longer behind the request. -/
def pulled (r : Run) : Source :=
  r.rest.take (r.rest.length - r.next.rest.length)

theorem pulled_append_rest (r : Run) : r.pulled ++ r.next.rest = r.rest := by
  have hrest : r.next.rest = r.rest.drop (r.rest.length - r.next.rest.length) :=
    List.suffix_iff_eq_drop.1 (Stream.rest_next_suffix r.stream r.rest)
  exact (congrArg (r.pulled ++ ·) hrest).trans (List.take_append_drop _ _)

/-- What a run keeps for its tokens to be those of its source. -/
structure Conserves (cfg : Config) (r : Run) : Prop where
  config : r.stream.config = some cfg
  policy : r.stream.policy = cfg.policy
  unmarked : ∀ t, .token t ∈ r.rest → t.isMarker = false
  ledger : ∀ m ∈ r.stream.levels.ledger.pending, m.isMarker = true

variable {cfg : Config} {r : Run}

theorem Conserves.next (h : r.Conserves cfg) : r.next.Conserves cfg := by
  have hreq := Stream.request_next h.config r.rest
  refine ⟨hreq.config_eq.trans h.config, hreq.policy_eq.trans h.policy, fun t ht => ?_, hreq.onlyMarkers h.ledger⟩
  exact h.unmarked t ((Stream.rest_next_suffix r.stream r.rest).subset ht)

theorem Conserves.pulled_eq (h : r.Conserves cfg) :
    r.pulled = if r.stream.asks then cfg.taken r.rest else [] := by
  have htaken := (Stream.request_next h.config r.rest).taken_append_rest
  exact List.append_cancel_right (r.pulled_append_rest.trans htaken.symm)

theorem Conserves.shown_next (h : r.Conserves cfg) :
    r.next.shown.filter (fun t => !t.isMarker) =
      r.shown.filter (fun t => !t.isMarker) ++ cfg.kept r.reply (Source.tokens r.pulled) := by
  have hkept := (Stream.request_next h.config r.rest).kept h.policy h.ledger h.unmarked
  rw [Run.shown_next, h.pulled_eq, List.filter_append, hkept, shown, List.filter_append, List.append_assoc]
  rfl

theorem conserves_of {source : Source} (hsource : ∀ t, .token t ∈ source → t.isMarker = false) :
    ∀ n, (Run.of (.ofConfig cfg) source n).Conserves cfg :=
  Run.induction ⟨rfl, rfl, hsource, nofun⟩ fun _ => Conserves.next

end Run

/-- **No token is lost, doubled, moved or read too soon**, whatever the source replies and however often the stream is
asked.  What the requests take one after another makes up the source, in front of what is left of it.  A request takes
something only if nothing is stored or held back and the source is not over; then it takes one reply, or a line break
and everything up to the end of its scan.  The tokens given so far and those held back, less the markers, are all that
the requests took, less what a scan took that ended in a fault, and less the white space behind the line breaks of the
other scans if it is skipped.  Outside of scans a request loses a token only where it cannot be told what that is, as
its type, a list or a record and not a name, cannot be looked up. -/
theorem Stream.tokens_conserved (cfg : Config) (source : Source)
    (hsource : ∀ t, .token t ∈ source → t.isMarker = false) (n : Nat) :
    let run (i : Nat) := Run.of (.ofConfig cfg) source i
    (List.range n).flatMap (fun i => (run i).pulled) ++ (run n).rest = source ∧
      (∀ i, (run i).pulled = if (run i).stream.asks then cfg.taken (run i).rest else []) ∧
      (run n).shown.filter (fun t => !t.isMarker) =
        (List.range n).flatMap (fun i => cfg.kept (run i).reply (Source.tokens (run i).pulled)) ∧
      ∀ i f, (run i).reply = .fault f → ∀ t ∈ (Source.tokens (run i).pulled).head?,
        cfg.classify t = .newline ∨ ∃ e, cfg.classOf t = .error e ∧ f = .kind e := by
  intro run
  have hall (i : Nat) : (run i).Conserves cfg := Run.conserves_of hsource i
  refine ⟨?_, fun i => (hall i).pulled_eq, ?_, fun i f hf => ?_⟩
  · induction n with
    | zero => rfl
    | succ n ih =>
      rw [List.range_succ, List.flatMap_append, List.flatMap_singleton, List.append_assoc]
      exact (congrArg _ (run n).pulled_append_rest).trans ih
  · induction n with
    | zero => rfl
    | succ n ih =>
      rw [List.range_succ, List.flatMap_append, List.flatMap_singleton, ← ih]
      exact (hall n).shown_next
  · rw [(hall i).pulled_eq]
    exact (Stream.request_next (hall i).config (run i).rest).newline_of_fault hf

/-- White space in front of both contents, a gap, and a scan that fails behind its line break. -/
theorem Stream.tokens_conserved_interrupted :
    (∀ t, .token t ∈ interruptedSource → t.isMarker = false) ∧
      let run (i : Nat) := Run.of (.ofConfig (wordConfig .skip 2)) interruptedSource i
      (List.range 12).flatMap (fun i => (run i).pulled) ++ (run 12).rest = interruptedSource ∧
        (run 7).pulled = [.token (.inColumn "NL" "\n" 6), .fault (.source "lost")] ∧
        (run 12).shown.filter (fun t => !t.isMarker) =
          [.inColumn "WORD" "a" 1, .inColumn "NL" "\n" 2, .inColumn "WORD" "b" 5, .inColumn "NL" "\n" 1,
            .inColumn "WORD" "c" 3] := by
  have hsource : ∀ t, .token t ∈ interruptedSource → t.isMarker = false := fun t ht =>
    (isRaw_of_mem_interruptedSource t ht).unmarked
  obtain ⟨htaken, hpulled, hshown, -⟩ := Stream.tokens_conserved (wordConfig .skip 2) interruptedSource hsource 12
  exact ⟨hsource, htaken, (hpulled 7).trans (by decide +kernel), hshown.trans (by decide +kernel)⟩

end Offside
