import Offside.Proofs.Stream.Conservation
import Offside.Proofs.Stream.Draining
/-!
# What the policy changes

Streams that differ by their policy alone hold back different numbers of tokens behind a scan, so their requests do not
answer one another.  Their portions do.  A portion (`Portion`) is all that a stream gives for one look at its source: a
token passed on, a window with its markers, or the markers that close the levels.  The source alone says which portions
a stream gives from some levels on (`Config.portions`): a window takes all line breaks and white space that come behind
its line break, and the token behind these, and the levels are closed only where there is no token.  No policy has a
part in it; it only says where in a portion the white space of a window stands (`Portion.tokens`).
-/
namespace Offside

/-! ## Portions -/

/-- What a stream gives for one look at its source. -/
inductive Portion where
  | passed (t : Token)
  | scanned (w : Window) (markers : List Token)
  | closed (markers : List Token)

namespace Portion

/-- The tokens of a portion in the order in which a policy has them come out. -/
def tokens (cfg : Config) (p : Policy) : Portion → List Token
  | .passed t => [t]
  | .closed markers => markers
  | .scanned w markers =>
    let front :=
      match p with
      | .before => w.blank cfg ++ (w.indent cfg ++ markers)
      | .after => w.blank cfg ++ (markers ++ w.indent cfg)
      | .skip => (w.blank cfg).filter (fun t => !cfg.isWhitespace t) ++ markers
    w.newline :: front ++ w.content.toList

def read : Portion → List Token
  | .passed t => [t]
  | .scanned w _ => w.tokens
  | .closed _ => []

/-- What a portion is made of: nothing but a window begins with a line break, all that is found up to its content is
line breaks and white space, and what the stream adds is markers. -/
def Fits (cfg : Config) : Portion → Prop
  | .passed t => cfg.classify t ≠ .newline
  | .scanned w markers =>
    cfg.classify w.newline = .newline ∧ (∀ t ∈ w.gap, cfg.isGap t) ∧ (∀ t ∈ w.content, cfg.classify t = .other) ∧
      ∀ m ∈ markers, m.isMarker
  | .closed markers => ∀ m ∈ markers, m.isMarker

/-- The tokens of a portion without the white space of its window. -/
def bare (cfg : Config) (p : Policy) : Portion → List Token
  | .scanned w markers => (tokens cfg p (.scanned w markers)).filter (fun t => t.isMarker || !cfg.isWhitespace t)
  | x => x.tokens cfg p

/-- The markers that close the levels, in front of what is given behind them.  Where no level is open, a stream ends. -/
def closing (levels : Levels) (behind : List Portion) : List Portion :=
  if levels.closeAll.1 = [] then [] else .closed levels.closeAll.1 :: behind

end Portion

/-- The indentation of a window in front of its content, unless it cannot be told what that is or in which column. -/
def Window.indentation (cfg : Config) (w : Window) (content : Token) : Except KindError Datum :=
  match cfg.classOf content with
  | .error e => .error e
  | .ok _ => LineScan.measure (w.lastBreak cfg) (w.indent cfg) content

/-- The portions that a source comes to from some levels on. -/
def Config.portions (cfg : Config) (levels : Levels) : Source → List Portion
  | [] => Portion.closing levels []
  | .done :: _ => Portion.closing levels []
  | .gap :: rest => Portion.closing levels (cfg.portions levels.closeAll.2 rest)
  | .fault _ :: _ => []
  | .token t :: rest =>
    match cfg.classOf t with
    | .error _ => []
    | .ok .newline =>
      match _h : rest.dropWhile cfg.isGapReply with
      | [] => [.scanned (cfg.window t rest none) levels.closeAll.1]
      | .done :: _ => [.scanned (cfg.window t rest none) levels.closeAll.1]
      | .gap :: behind => .scanned (cfg.window t rest none) levels.closeAll.1 :: cfg.portions levels.closeAll.2 behind
      | .fault _ :: _ => []
      | .token content :: behind =>
        match (cfg.window t rest (some content)).indentation cfg content with
        | .error _ => []
        | .ok length =>
          match levels.reconcile cfg.kinds length (some content) with
          | (.error _, _) => []
          | (.ok markers, levels) => .scanned (cfg.window t rest (some content)) markers :: cfg.portions levels behind
    | .ok _ => .passed t :: cfg.portions levels rest
termination_by source => source.length
decreasing_by
  · simp
  · have := (List.dropWhile_sublist cfg.isGapReply (l := rest)).length_le
    rw [_h] at this
    simp only [List.length_cons] at this ⊢
    omega
  · have := (List.dropWhile_sublist cfg.isGapReply (l := rest)).length_le
    rw [_h] at this
    simp only [List.length_cons] at this ⊢
    omega
  · simp

namespace Portion

variable {cfg : Config} {x : Portion}

/-- A marker stays in whatever its type, so this needs that no marker is in the window. -/
theorem filter_tokens_scanned {w : Window} {markers : List Token} (hx : (scanned w markers).Fits cfg)
    (hread : ∀ t ∈ w.tokens, t.isMarker = false) (p : Policy) :
    (tokens cfg p (.scanned w markers)).filter (fun t => t.isMarker || !cfg.isWhitespace t) =
      tokens cfg .skip (.scanned w markers) := by
  obtain ⟨hnewline, -, hcontent, hmarkers⟩ := hx
  have hgap : w.gap = w.blank cfg ++ w.indent cfg := (List.rdropWhile_append_rtakeWhile ..).symm
  have hread' {t : Token} (ht : t ∈ w.gap ++ w.content.toList) : t.isMarker = false :=
    hread t (List.mem_cons_of_mem _ ht)
  have hfilter {ts : List Token} (hts : ts ⊆ w.gap ++ w.content.toList) :
      ts.filter (fun t => t.isMarker || !cfg.isWhitespace t) = ts.filter (fun t => !cfg.isWhitespace t) :=
    List.filter_congr fun t ht => by rw [hread' (hts ht), Bool.false_or]
  have hn : cfg.isWhitespace w.newline = false := isWhitespace_of_newline hnewline
  have hb := @hfilter (w.blank cfg) fun t ht => by simp [hgap, ht]
  -- the run in front of the content is white space throughout
  have hi : (w.indent cfg).filter (fun t => t.isMarker || !cfg.isWhitespace t) = [] := by
    rw [hfilter fun t ht => by simp [hgap, ht]]
    refine List.filter_eq_nil_iff.2 fun t ht => ?_
    have : cfg.isWhitespace t = true := List.mem_rtakeWhile_imp ht
    simp [this]
  have hm : markers.filter (fun t => t.isMarker || !cfg.isWhitespace t) = markers :=
    List.filter_eq_self.2 fun m hm => by simp [hmarkers m hm]
  have hc : w.content.toList.filter (fun t => t.isMarker || !cfg.isWhitespace t) = w.content.toList :=
    List.filter_eq_self.2 fun t ht => by simp [Config.isWhitespace, hcontent t (Option.mem_toList.1 ht)]
  have hb' : ((w.blank cfg).filter (fun t => !cfg.isWhitespace t)).filter
      (fun t => t.isMarker || !cfg.isWhitespace t) = (w.blank cfg).filter (fun t => !cfg.isWhitespace t) :=
    List.filter_eq_self.2 fun t ht => by simp [(List.mem_filter.1 ht).2]
  cases p <;> simp [tokens, hn, hb, hi, hm, hc, hb']

/-- **Without the white space of its window, a portion is what it is where white space is skipped.** -/
theorem bare_eq (hx : x.Fits cfg) (hread : ∀ t ∈ x.read, t.isMarker = false) (p : Policy) :
    x.bare cfg p = x.tokens cfg .skip := by
  cases x with
  | passed | closed => rfl
  | scanned w markers => exact filter_tokens_scanned hx hread p

theorem filter_tokens (hx : x.Fits cfg) (hread : ∀ t ∈ x.read, t.isMarker = false) (p : Policy) :
    (x.tokens cfg p).filter (fun t => t.isMarker || !cfg.isWhitespace t) =
      (x.tokens cfg .skip).filter (fun t => t.isMarker || !cfg.isWhitespace t) := by
  cases x with
  | passed | closed => rfl
  | scanned w markers =>
    rw [filter_tokens_scanned hx hread]
    exact (filter_tokens_scanned hx hread .skip).symm

/-- What a stream holds behind a scan is a portion. -/
theorem tokens_of_arrange {scan : LineScan Token} {w : Window} (hlines : BlankOf cfg scan.blankLines (w.blank cfg))
    (hindent : scan.whitespace = w.indent cfg) (hcontent : scan.content = w.content) (p : Policy)
    (markers : List Token) : arrange p w.newline scan markers = tokens cfg p (.scanned w markers) := by
  unfold arrange tokens
  rw [hindent, hcontent]
  cases p with
  | before | after => simp [hlines.1]
  | skip => simp [hlines.2]


variable {levels : Levels} {xs : List Portion}

theorem fits_closing (h : ∀ m ∈ levels.ledger.pending, m.isMarker = true) (hxs : ∀ x ∈ xs, x.Fits cfg) :
    ∀ x ∈ closing levels xs, x.Fits cfg := by
  unfold closing
  split
  · exact List.forall_mem_nil _
  · exact List.forall_mem_cons.2 ⟨h, hxs⟩

theorem read_closing {ts : List Token} (hxs : xs.flatMap read <+: ts) : (closing levels xs).flatMap read <+: ts := by
  unfold closing
  split
  · exact List.nil_prefix
  · exact hxs

end Portion

section
variable {cfg : Config}

/-! ## What a source comes to -/

/-- Behind a gap, a scan finds the indentation of the window, -/
theorem scanFrom_indented {w : Window} {content : Token} {length : Datum} (hc : cfg.classify content = .other)
    (h : w.indentation cfg content = .ok length) (behind : Source) :
    scanFrom cfg (w.lastBreak cfg) (w.indent cfg) (.token content :: behind) =
      .found ⟨length, [], w.indent cfg, some content⟩ false behind := by
  unfold Window.indentation at h
  split at h
  · cases h
  · rename_i c hk
    obtain rfl : c = .other := (Config.classify_of_classOf hk).symm.trans hc
    exact scanFrom_content _ _ _ hk h

/-- and it is failed where there is none. -/
theorem scanFrom_failed {w : Window} {content : Token} {e : KindError} (hc : cfg.classify content = .other)
    (h : w.indentation cfg content = .error e) (behind : Source) :
    scanFrom cfg (w.lastBreak cfg) (w.indent cfg) (.token content :: behind) = .broken (.kind e) behind := by
  unfold Window.indentation at h
  split at h
  · rename_i e' hk
    cases h
    exact scanFrom_unknown _ _ _ hk
  · rename_i c hk
    obtain rfl : c = .other := (Config.classify_of_classOf hk).symm.trans hc
    exact scanFrom_unmeasured _ _ _ hk h

theorem read_window {t : Token} {source : Source} {content : Option Token} {more : List Token} {xs : List Portion}
    (h : Source.tokens (source.dropWhile cfg.isGapReply) = content.toList ++ more) (markers : List Token)
    (hxs : xs.flatMap Portion.read <+: more) :
    (.scanned (cfg.window t source content) markers :: xs).flatMap Portion.read <+:
      Source.tokens (.token t :: source) := by
  have hsource : Source.tokens source =
      Source.tokens (source.takeWhile cfg.isGapReply) ++ (content.toList ++ more) := by
    rw [← h, ← tokens_append, List.takeWhile_append_dropWhile]
  have htokens : Source.tokens (.token t :: source) = t :: Source.tokens source := rfl
  rw [htokens, hsource, List.flatMap_cons, Portion.read, Window.tokens, List.cons_append, List.cons_append,
    List.append_assoc]
  simpa [Config.window] using hxs

/-- What a source comes to is made of what it replies, one behind another. -/
theorem read_portions (cfg : Config) (levels : Levels) (source : Source) :
    (cfg.portions levels source).flatMap Portion.read <+: source.tokens := by
  fun_induction cfg.portions levels source with
  | case1 | case2 => exact Portion.read_closing List.nil_prefix
  | case3 levels rest ih => exact Portion.read_closing ih
  | case4 | case5 | case9 | case10 | case11 => exact List.nil_prefix
  | case6 levels t rest hk hbehind => exact read_window (by rw [hbehind]; rfl) _ List.nil_prefix
  | case7 levels t rest hk behind hbehind => exact read_window (by rw [hbehind]; rfl) _ List.nil_prefix
  | case8 levels t rest hk behind hbehind ih => exact read_window (by rw [hbehind]; rfl) _ ih
  | case12 levels t rest hk content behind hbehind length hm markers levels' hr ih =>
    exact read_window (by rw [hbehind]; rfl) _ ih
  | case13 levels t rest c hne hk ih => exact (List.prefix_cons_inj t).2 ih

/-- What a source comes to is made as portions are, as long as the ledger holds nothing but markers. -/
theorem fits_portions (cfg : Config) (levels : Levels) (source : Source) :
    (∀ m ∈ levels.ledger.pending, m.isMarker = true) → ∀ x ∈ cfg.portions levels source, x.Fits cfg := by
  have hclosed (levels : Levels) : ∀ m ∈ levels.closeAll.2.ledger.pending, m.isMarker = true := List.forall_mem_nil _
  have hgap (rest : Source) := (tokens_takeWhile_isGapReply cfg rest).2
  have hempty {t : Token} (ht : t ∈ (none : Option Token)) : cfg.classify t = .other := by cases ht
  fun_induction cfg.portions levels source with
  | case1 | case2 => exact fun h => Portion.fits_closing h (List.forall_mem_nil _)
  | case3 levels rest ih => exact fun h => Portion.fits_closing h (ih (hclosed _))
  | case4 | case5 | case9 | case10 | case11 => exact fun _ => List.forall_mem_nil _
  | case6 levels t rest hk hbehind =>
    exact fun h => List.forall_mem_singleton.2 ⟨Config.classify_of_classOf hk, hgap rest, fun _ => hempty, h⟩
  | case7 levels t rest hk behind hbehind =>
    exact fun h => List.forall_mem_singleton.2 ⟨Config.classify_of_classOf hk, hgap rest, fun _ => hempty, h⟩
  | case8 levels t rest hk behind hbehind ih =>
    intro h
    exact List.forall_mem_cons.2 ⟨⟨Config.classify_of_classOf hk, hgap rest, fun _ => hempty, h⟩, ih (hclosed _)⟩
  | case12 levels t rest hk content behind hbehind length hm markers levels' hr ih =>
    intro h
    have hmoved : Levels.OnlyMarkers (.ok markers, levels') := hr ▸ Levels.reconcile_onlyMarkers h length
    have hcontent : ∀ u ∈ some content, cfg.classify u = .other := by
      rintro u ⟨⟩
      exact other_of_behind hbehind
    have hfits : (Portion.scanned (cfg.window t rest (some content)) markers).Fits cfg :=
      ⟨Config.classify_of_classOf hk, hgap rest, hcontent, hmoved.given markers rfl⟩
    exact List.forall_mem_cons.2 ⟨hfits, ih hmoved.pending⟩
  | case13 levels t rest c hne hk ih =>
    intro h
    have hc : cfg.classify t ≠ .newline := fun hc => hne ((Config.classify_of_classOf hk).symm.trans hc)
    exact List.forall_mem_cons.2 ⟨hc, ih h⟩

end

/-! ## Streams -/

namespace Stream

def under (p : Policy) (s : Stream) : Stream :=
  { s with
    policy := p
    config := s.config.map (fun cfg => { cfg with policy := p }) }

/-- A stream that asks its source, or knows it to be over. -/
structure Idle (cfg : Config) (s : Stream) : Prop where
  config : s.config = some cfg
  stopped : s.stopped = none
  buffer : s.buffer = []

/-- Under every policy a stream gives the same portions, and it ends alike. -/
def DrainsTo (cfg : Config) (s : Stream) (source : Source) (xs : List Portion) : Prop :=
  ∃ d : Drained, ∀ p, (s.under p).drain source =
    { d with tokens := xs.flatMap (Portion.tokens cfg p), stream := d.stream.under p }

section
variable {cfg : Config} {s s' : Stream} {source rest : Source} {xs : List Portion}

theorem scanLine_under (cfg : Config) (p : Policy) (newline : Token) (source : Source) :
    scanLine { cfg with policy := p } newline source = scanLine cfg newline source := by
  have hc (t : Token) : ({ cfg with policy := p } : Config).classOf t = cfg.classOf t := rfl
  exact scanFrom_congr hc newline [] source

theorem next_under (h : s.Idle cfg) (p : Policy) (source : Source) :
    (s.under p).next source = (s.under p).pull { cfg with policy := p } source := by
  have hc : (s.under p).config = some { cfg with policy := p } := by simp [under, h.config]
  exact next_idle hc h.stopped h.buffer source

theorem next_under_newline (h : s.Idle cfg) (hx : s.exhausted = false) {t : Token} (ht : cfg.classify t = .newline)
    (p : Policy) (source : Source) : (s.under p).next (.token t :: source) =
      match scanLine cfg t source with
      | .broken f rest => ⟨.fault f, s.under p, rest, []⟩
      | .found scan ended rest =>
        ({ s with exhausted := ended }.under p).settle { cfg with policy := p } t scan rest := by
  have hx' : (s.under p).exhausted = false := hx
  have ht' : ({ cfg with policy := p } : Config).classify t = .newline := ht
  rw [next_under h, pull_newline hx' ht', scanLine_under]
  rfl

/-- A request that gives no token ends the stream. -/
theorem drainsTo_of_ends (s' : Stream) {reply : Reply} {notes : List Note} (hreply : ∀ t, reply ≠ .token t)
    (h : ∀ p, (s.under p).next source = ⟨reply, s'.under p, rest, notes⟩) : s.DrainsTo cfg source [] := by
  refine ⟨⟨[], reply.fault?, s', rest, notes⟩, fun p => ?_⟩
  have hp := h p
  rw [drain_of_not_token (by rw [hp]; exact hreply), hp]
  rfl

/-- A request that gives the first token of a portion is followed by the rest of it, and by what the stream behind it
gives. -/
theorem drainsTo_of_gives {x : Portion} {notes : List Note} (hne : ∀ p, x.tokens cfg p ≠ []) (hs' : s'.Idle cfg)
    (h : ∀ p, (s.under p).next source = { s'.under p with buffer := x.tokens cfg p }.emit rest notes)
    (hrest : s'.DrainsTo cfg rest xs) : s.DrainsTo cfg source (x :: xs) := by
  obtain ⟨d, hdrain⟩ := hrest
  refine ⟨{ d with notes := notes ++ d.notes }, fun p => ?_⟩
  let full : Stream := { s'.under p with buffer := x.tokens cfg p }
  have hconfig : full.config = some { cfg with policy := p } := by simp [full, under, hs'.config]
  have hempty : { s'.under p with buffer := [] } = s'.under p := by
    rw [← hs'.buffer]
    rfl
  have hd := drain_of_emit hconfig (hs'.stopped : full.stopped = none) (hne p) (h p)
  dsimp only at hd
  rw [hd, hempty, hdrain p]
  rfl

/-! ### Closings -/

/-- A stream that knows its source to be over, and has no level open, ends. -/
theorem drainsTo_of_over (h : s.Idle cfg) (hx : s.exhausted = true) (hl : s.levels.closeAll.1 = []) (source : Source) :
    s.DrainsTo cfg source [] := by
  let closed : Stream := { s with levels := s.levels.closeAll.2 }
  have hends (p : Policy) : (s.under p).next source = ⟨.done, closed.under p, source, []⟩ := by
    rw [next_under h, pull_exhausted (s := s.under p) hx, close]
    simp [emit, closed, under, hl, h.buffer]
  exact drainsTo_of_ends closed (by simp) hends

/-- Where the source has no token, the stream closes its levels, and it ends where none is open. -/
theorem drainsTo_of_close (h : s.Idle cfg) (ended : Bool)
    (hnext : ∀ p, (s.under p).next source = ({ s with exhausted := ended }.under p).close rest)
    (hrest : s.levels.closeAll.1 ≠ [] →
      { s with exhausted := ended, levels := s.levels.closeAll.2 }.DrainsTo cfg rest xs) :
    s.DrainsTo cfg source (Portion.closing s.levels xs) := by
  let closed : Stream := { s with exhausted := ended, levels := s.levels.closeAll.2 }
  have hclose (p : Policy) : (s.under p).next source =
      { closed.under p with buffer := s.levels.closeAll.1 }.emit rest [] := hnext p
  unfold Portion.closing
  split
  · rename_i hl
    have hends (p : Policy) : (s.under p).next source = ⟨.done, closed.under p, rest, []⟩ := by
      rw [hclose p, hl]
      simp [emit, closed, under, h.buffer]
    exact drainsTo_of_ends closed (by simp) hends
  · rename_i hl
    have hclosed : closed.Idle cfg := ⟨h.config, h.stopped, h.buffer⟩
    exact drainsTo_of_gives (fun _ => hl) hclosed hclose (hrest hl)

/-! ### Scans -/

section
variable {t : Token} {scan : LineScan Token} {ended : Bool} {levels : Levels}

theorem drainsTo_of_broken (h : s.Idle cfg) (hx : s.exhausted = false) (hc : cfg.classify t = .newline) {f : Fault}
    (hs : scanLine cfg t source = .broken f rest) : s.DrainsTo cfg (.token t :: source) [] := by
  have hends (p : Policy) : (s.under p).next (.token t :: source) = ⟨.fault f, s.under p, rest, []⟩ := by
    rw [next_under_newline h hx hc, hs]
  exact drainsTo_of_ends s (by simp) hends

/-- A scan at whose content the levels cannot be moved ends the stream. -/
theorem drainsTo_of_refused (h : s.Idle cfg) (hx : s.exhausted = false) (hc : cfg.classify t = .newline)
    (hs : scanLine cfg t source = .found scan ended rest) {f : Fault}
    (hr : s.levels.reconcile cfg.kinds scan.length scan.content = (.error f, levels)) :
    s.DrainsTo cfg (.token t :: source) [] := by
  have hnext (p : Policy) := next_under_newline h hx hc p source
  have hlevels (p : Policy) : ({ s with exhausted := ended }.under p).levels = s.levels := rfl
  simp only [hs, settle, hlevels, hr] at hnext
  cases f with
  | indent e => exact drainsTo_of_ends { s with exhausted := ended, levels, stopped := some e } (by simp) hnext
  | _ => exact drainsTo_of_ends { s with exhausted := ended, levels } (by simp) hnext

/-- Any other scan gives its window with the markers that the indentation calls for. -/
theorem drainsTo_of_scan (h : s.Idle cfg) (hx : s.exhausted = false) {w : Window} {markers : List Token}
    (hc : cfg.classify w.newline = .newline) (hs : scanLine cfg w.newline source = .found scan ended rest)
    (hlines : BlankOf cfg scan.blankLines (w.blank cfg)) (hindent : scan.whitespace = w.indent cfg)
    (hcontent : scan.content = w.content)
    (hr : s.levels.reconcile cfg.kinds scan.length scan.content = (.ok markers, levels))
    (hrest : { s with exhausted := ended, levels }.DrainsTo cfg rest xs) :
    s.DrainsTo cfg (.token w.newline :: source) (.scanned w markers :: xs) := by
  let behind : Stream := { s with exhausted := ended, levels }
  have hgives (p : Policy) : (s.under p).next (.token w.newline :: source) =
      { behind.under p with buffer := Portion.tokens cfg p (.scanned w markers) }.emit rest
        (scanNotes s.levels scan (.ok markers)) := by
    have hlevels : ({ s with exhausted := ended }.under p).levels = s.levels := rfl
    rw [next_under_newline h hx hc, hs, ← Portion.tokens_of_arrange hlines hindent hcontent]
    simp only [settle, hlevels, hr]
    rfl
  have hbehind : behind.Idle cfg := ⟨h.config, h.stopped, h.buffer⟩
  exact drainsTo_of_gives (fun p => by simp [Portion.tokens]) hbehind hgives hrest

end

/-- A scan that finds no content gives its window with the markers that close all levels. -/
theorem drainsTo_of_blank {t : Token} {ended : Bool} (h : s.Idle cfg) (hx : s.exhausted = false)
    (hc : cfg.classify t = .newline)
    (hend : ∀ newline whitespace, scanFrom cfg newline whitespace (source.dropWhile cfg.isGapReply) =
      .found ⟨.int 0, [], whitespace, none⟩ ended rest)
    (hrest : { s with exhausted := ended, levels := s.levels.closeAll.2 }.DrainsTo cfg rest xs) :
    s.DrainsTo cfg (.token t :: source) (.scanned (cfg.window t source none) s.levels.closeAll.1 :: xs) := by
  obtain ⟨lines, hlines, hs⟩ := scanLine_gap cfg t source none
  rw [hend] at hs
  exact drainsTo_of_scan h hx (w := cfg.window t source none) hc hs (by simpa using hlines) rfl rfl rfl hrest

/-- **Under every policy, a stream gives the portions that its source comes to, and it ends alike.**  The induction is
on the portions of the source. -/
theorem drainsTo_portions (levels : Levels) (source : Source) : ∀ {s : Stream}, s.Idle cfg → s.exhausted = false →
    s.levels = levels → s.DrainsTo cfg source (cfg.portions levels source) := by
  -- behind the end of the source no level is open
  have hover {s : Stream} (h : s.Idle cfg) (rest : Source) :
      { s with exhausted := true, levels := s.levels.closeAll.2 }.DrainsTo cfg rest [] := by
    let spent : Stream := { s with exhausted := true, levels := s.levels.closeAll.2 }
    exact drainsTo_of_over (s := spent) ⟨h.config, h.stopped, h.buffer⟩ rfl rfl rest
  fun_induction cfg.portions levels source with
  | case1 =>
    rintro s h hx rfl
    have hnext (p : Policy) := (next_under h p []).trans (pull_nil (s := s.under p) hx _)
    exact drainsTo_of_close h true hnext fun _ => hover h []
  | case2 levels rest =>
    rintro s h hx rfl
    have hnext (p : Policy) := (next_under h p (.done :: rest)).trans (pull_done (s := s.under p) hx _ rest)
    exact drainsTo_of_close h true hnext fun _ => hover h rest
  | case3 levels rest ih =>
    rintro s h hx rfl
    have hnext (p : Policy) : (s.under p).next (.gap :: rest) = ({ s with exhausted := false }.under p).close rest := by
      rw [next_under h, pull_gap (s := s.under p) hx, ← hx]
    exact drainsTo_of_close h false hnext fun _ => ih ⟨h.config, h.stopped, h.buffer⟩ rfl rfl
  | case4 levels f rest =>
    rintro s h hx rfl
    have hends (p : Policy) : (s.under p).next (.fault f :: rest) = ⟨.fault f, s.under p, rest, []⟩ := by
      rw [next_under h, pull_fault (s := s.under p) hx]
    exact drainsTo_of_ends s (by simp) hends
  | case5 levels t rest e hk =>
    rintro s h hx rfl
    have hends (p : Policy) : (s.under p).next (.token t :: rest) = ⟨.fault (.kind e), s.under p, rest, []⟩ := by
      have hx' : (s.under p).exhausted = false := hx
      have hk' : ({ cfg with policy := p } : Config).classOf t = .error e := hk
      rw [next_under h, pull_unknown hx' hk']
    exact drainsTo_of_ends s (by simp) hends
  | case6 levels t rest hk hbehind =>
    rintro s h hx rfl
    exact drainsTo_of_blank h hx (Config.classify_of_classOf hk) (fun _ _ => by rw [hbehind]; rfl) (hover h [])
  | case7 levels t rest hk behind hbehind =>
    rintro s h hx rfl
    exact drainsTo_of_blank h hx (Config.classify_of_classOf hk) (fun _ _ => by rw [hbehind]; rfl) (hover h behind)
  | case8 levels t rest hk behind hbehind ih =>
    rintro s h hx rfl
    have hrest := ih (s := { s with exhausted := false, levels := s.levels.closeAll.2 })
      ⟨h.config, h.stopped, h.buffer⟩ rfl rfl
    exact drainsTo_of_blank h hx (Config.classify_of_classOf hk) (fun _ _ => by rw [hbehind]; rfl) hrest
  | case9 levels t rest hk f behind hbehind =>
    rintro s h hx rfl
    obtain ⟨lines, -, hs⟩ := scanLine_gap cfg t rest none
    rw [hbehind] at hs
    exact drainsTo_of_broken h hx (Config.classify_of_classOf hk) hs
  | case10 levels t rest hk content behind hbehind e hm =>
    rintro s h hx rfl
    obtain ⟨lines, hlines, hs⟩ := scanLine_gap cfg t rest (some content)
    rw [hbehind, scanFrom_failed (other_of_behind hbehind) hm] at hs
    exact drainsTo_of_broken h hx (Config.classify_of_classOf hk) hs
  | case11 levels t rest hk content behind hbehind length hm f levels' hr =>
    rintro s h hx rfl
    obtain ⟨lines, hlines, hs⟩ := scanLine_gap cfg t rest (some content)
    rw [hbehind, scanFrom_indented (other_of_behind hbehind) hm] at hs
    exact drainsTo_of_refused h hx (Config.classify_of_classOf hk) hs hr
  | case12 levels t rest hk content behind hbehind length hm markers levels' hr ih =>
    rintro s h hx rfl
    obtain ⟨lines, hlines, hs⟩ := scanLine_gap cfg t rest (some content)
    rw [hbehind, scanFrom_indented (other_of_behind hbehind) hm] at hs
    have hrest := ih (s := { s with exhausted := false, levels := levels' }) ⟨h.config, h.stopped, h.buffer⟩ rfl rfl
    exact drainsTo_of_scan h hx (w := cfg.window t rest (some content)) (Config.classify_of_classOf hk) hs
      (by simpa using hlines) rfl rfl hr hrest
  | case13 levels t rest c hne hk ih =>
    rintro s h hx rfl
    obtain ⟨hknown, hc⟩ := Config.classOf_eq_ok_iff.1 hk
    have hgives (p : Policy) : (s.under p).next (.token t :: rest) =
        { s.under p with buffer := Portion.tokens cfg p (.passed t) }.emit rest [] := by
      have hx' : (s.under p).exhausted = false := hx
      have hc' : ({ cfg with policy := p } : Config).classify t ≠ .newline := fun h => hne (hc ▸ h)
      have hknown' : ({ cfg with policy := p } : Config).knows t = true := hknown
      rw [next_under h, pull_passed hx' hc' hknown']
      simp [Portion.tokens, emit, under, h.buffer]
    exact drainsTo_of_gives (fun _ => by simp [Portion.tokens]) h hgives (ih h hx rfl)

/-- **The policy changes the place of white space and nothing else**, whatever the source replies.  Under each of the
three policies a stream gives the portions that its source comes to, and `Config.portions` has no policy in it.  White
space before the markers and white space after them differ in the last line of a window, by definition of
`Portion.tokens`; and skipping it comes to taking the white space out of the windows, from either of the two.  A window
is a line break with all line breaks and white space that come next in the source and the content behind them, and the
portions are made of the tokens of the source, in its order, and of markers.  The streams end alike, with the same fault
or with none, and leave the same stream, source and notes behind, so that the depth, the unit and whether the source is
over are the same.  Their markers and their tokens other than white space are the same, in the same order. -/
theorem policy_moves_whitespace (cfg : Config) (source : Source)
    (hsource : ∀ t, .token t ∈ source → t.isMarker = false) :
    let d (p : Policy) := (ofConfig { cfg with policy := p }).drain source
    let portions := cfg.portions (.start (.int cfg.unit)) source
    (∀ p, (d p).tokens = portions.flatMap (Portion.tokens cfg p)) ∧
      (∀ p, (d .skip).tokens = portions.flatMap (Portion.bare cfg p)) ∧
      (∀ x ∈ portions, x.Fits cfg) ∧ portions.flatMap Portion.read <+: source.tokens ∧
      ∀ p q,
        (d p).tokens.filter (fun t => t.isMarker || !cfg.isWhitespace t) =
          (d q).tokens.filter (fun t => t.isMarker || !cfg.isWhitespace t) ∧
        (d q).fault = (d p).fault ∧ (d q).stream = (d p).stream.under q ∧ (d q).rest = (d p).rest ∧
        (d q).notes = (d p).notes := by
  intro d portions
  have hidle : (ofConfig cfg).Idle cfg := ⟨rfl, rfl, rfl⟩
  obtain ⟨e, hdrain⟩ := drainsTo_portions (.start (.int cfg.unit)) source hidle rfl rfl
  have hd (p : Policy) : d p = _ := hdrain p
  have hfits : ∀ x ∈ portions, x.Fits cfg := fits_portions cfg _ source (List.forall_mem_nil _)
  have hprefix : portions.flatMap Portion.read <+: source.tokens := read_portions cfg _ source
  have hread : ∀ x ∈ portions, ∀ t ∈ x.read, t.isMarker = false := by
    intro x hx t ht
    have hmem : t ∈ source.tokens := hprefix.subset (List.mem_flatMap.2 ⟨x, hx, ht⟩)
    obtain ⟨r, hr, hrt⟩ := List.mem_filterMap.1 hmem
    cases r with
    | token u =>
      cases hrt
      exact hsource t hr
    | gap | done | fault f => cases hrt
  have hfilter (p : Policy) : (d p).tokens.filter (fun t => t.isMarker || !cfg.isWhitespace t) =
      (d .skip).tokens.filter (fun t => t.isMarker || !cfg.isWhitespace t) := by
    rw [hd p, hd .skip, List.filter_flatMap, List.filter_flatMap]
    exact List.flatMap_congr fun x hx => Portion.filter_tokens (hfits x hx) (hread x hx) p
  refine ⟨fun p => by rw [hd p], fun p => ?_, hfits, hprefix, fun p q => ⟨?_, ?_, ?_, ?_, ?_⟩⟩
  · rw [hd .skip]
    exact (List.flatMap_congr fun x hx => Portion.bare_eq (hfits x hx) (hread x hx) p).symm
  · rw [hfilter p, hfilter q]
  · rw [hd p, hd q]
  · rw [hd p, hd q]
    simp [under, Option.map_map, Function.comp_def]
  · rw [hd p, hd q]
  · rw [hd p, hd q]

/-- White space in front of both contents, a gap, and a scan that fails behind its line break: the blanks of the one
window that is given stand in front of its two markers, behind them, or nowhere. -/
theorem policy_moves_whitespace_interrupted :
    (∀ t, .token t ∈ interruptedSource → t.isMarker = false) ∧
      let cfg := wordConfig .before 2
      let d (p : Policy) := (ofConfig (wordConfig p 2)).drain interruptedSource
      (d .before).tokens.map Token.value = ["a", "\n", "    ", "", "", "b", "", ""] ∧
        (d .after).tokens.map Token.value = ["a", "\n", "", "", "    ", "b", "", ""] ∧
        (d .skip).tokens.map Token.value = ["a", "\n", "", "", "b", "", ""] ∧
        (d .skip).tokens = (cfg.portions (.start (.int 2)) interruptedSource).flatMap (Portion.bare cfg .before) ∧
        (d .skip).fault = (d .after).fault := by
  have hsource : ∀ t, .token t ∈ interruptedSource → t.isMarker = false := fun t ht =>
    (isRaw_of_mem_interruptedSource t ht).unmarked
  obtain ⟨htokens, hbare, -, -, halike⟩ := policy_moves_whitespace (wordConfig .before 2) interruptedSource hsource
  have hvalues (p : Policy) := congrArg (List.map Token.value) (htokens p)
  exact ⟨hsource, (hvalues .before).trans (by decide +kernel), (hvalues .after).trans (by decide +kernel),
    (hvalues .skip).trans (by decide +kernel), hbare .before, (halike .after .skip).2.1⟩

end
end Stream
end Offside
