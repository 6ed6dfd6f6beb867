import Offside.Proofs.Levels.Moves
import Offside.Proofs.Stream.Requests
import Offside.Tokenize
/-!
# Markers nest

Read from left to right, the markers of a stream open and close levels like brackets.  `Kinds.openAfter` reads them so:
an opening marker has to carry the present depth, and a closing marker has to be the marker that opened the deepest
level, its type aside.  The markers that a stream has given and those that it holds back can always be read in this
way, and the ledger holds what will close the levels that stay open (`markers_nest`).

One place is never enough to say so: a marker goes from a scan to the buffer and from there to whoever asks, and its
closing twin waits in the ledger.  `Nested` ties the three together, and every case of a request keeps it.
-/
namespace Offside

/-! ## Reading markers -/

/-- The opening markers of the levels that are open behind some markers, the deepest first, given those of the levels
open in front of them; nothing where a marker does not fit. -/
def Kinds.openAfter (kinds : Kinds) (opened : List Token) : List Token → Option (List Token)
  | [] => some opened
  | m :: ms =>
    if m.type = kinds.indent then
      if m.level = some (.int opened.length) then kinds.openAfter (m :: opened) ms else none
    else
      match opened with
      | [] => none
      | opening :: outer =>
        if m.level = some (.int outer.length) ∧ m = kinds.closing opening then kinds.openAfter outer ms else none

namespace Kinds

variable (kinds : Kinds)

theorem openAfter_append (ms ns : List Token) : ∀ opened : List Token,
    kinds.openAfter opened (ms ++ ns) = (kinds.openAfter opened ms).bind (kinds.openAfter · ns) := by
  induction ms with
  | nil => intro opened; rfl
  | cons m ms ih =>
    intro opened
    simp only [List.cons_append, openAfter]
    by_cases ht : m.type = kinds.indent
    · by_cases hl : m.level = some (.int opened.length)
      · simpa only [ht, hl, if_true] using ih (m :: opened)
      · simp only [ht, hl, if_true, if_false, Option.bind_none]
    · cases opened with
      | nil => simp only [ht, if_false, Option.bind_none]
      | cons opening outer =>
        by_cases hm : m.level = some (.int outer.length) ∧ m = kinds.closing opening
        · simpa only [ht, if_false, if_pos hm] using ih outer
        · simp only [ht, if_false, if_neg hm, Option.bind_none]

theorem openAfter_cons_indent {opened ms : List Token} {m : Token} (ht : m.type = kinds.indent)
    (hl : m.level = some (.int opened.length)) :
    kinds.openAfter opened (m :: ms) = kinds.openAfter (m :: opened) ms := by
  simp [openAfter, ht, hl]

theorem openAfter_cons_closing {outer ms : List Token} {opening : Token}
    (hl : opening.level = some (.int outer.length)) :
    kinds.openAfter (opening :: outer) (kinds.closing opening :: ms) = kinds.openAfter outer ms := by
  have hne : (kinds.closing opening).type ≠ kinds.indent := kinds.indent_ne_dedent.symm
  simp [openAfter, hne, hl]

theorem openAfter_of_opens {depth : Nat} {ms : List Token} (h : Opens kinds depth ms) : ∀ {opened : List Token},
    opened.length = depth → kinds.openAfter opened ms = some (ms.reverse ++ opened) := by
  induction h with
  | nil => intro opened _; rfl
  | @cons depth m ms ht hl hms ih =>
    intro opened ho
    rw [openAfter_cons_indent kinds ht (by rw [hl, ho]), ih (by rw [List.length_cons, ho])]
    simp

theorem opens_append {ms ns : List Token} : ∀ {depth : Nat},
    Opens kinds depth (ms ++ ns) ↔ Opens kinds depth ms ∧ Opens kinds (depth + ms.length) ns := by
  induction ms with
  | nil => exact fun {depth} => ⟨fun h => ⟨.nil, h⟩, fun h => h.2⟩
  | cons m ms ih =>
    intro depth
    rw [List.cons_append, List.length_cons, show depth + (ms.length + 1) = depth + 1 + ms.length by omega]
    constructor
    · rintro (_ | ⟨ht, hl, h⟩)
      exact ⟨.cons ht hl (ih.1 h).1, (ih.1 h).2⟩
    · rintro ⟨_ | ⟨ht, hl, h⟩, hns⟩
      exact .cons ht hl (ih.2 ⟨h, hns⟩)

theorem openAfter_closing (count : Nat) : ∀ {opened : List Token}, Opens kinds 0 opened.reverse →
    kinds.openAfter opened ((opened.map kinds.closing).take count) = some (opened.drop count) := by
  induction count with
  | zero => intro opened _; rfl
  | succ count ih =>
    intro opened h
    cases opened with
    | nil => rfl
    | cons opening outer =>
      rw [List.reverse_cons, opens_append, Nat.zero_add, List.length_reverse] at h
      obtain ⟨houter, _ | ⟨-, hl, -⟩⟩ := h
      rw [List.map_cons, List.take_succ_cons, List.drop_succ_cons, openAfter_cons_closing kinds hl]
      exact ih houter

end Kinds

/-! ## The tokens of a scan -/

/-- Every token that a scan found, behind the line break that began it. -/
def LineScan.tokens {α : Type} (scan : LineScan α) : List α :=
  scan.blankLines.flatMap (fun line => line.1 ++ [line.2]) ++ scan.whitespace ++ scan.content.toList

theorem forall_tokens_of_scanFrom {P : Token → Prop} (cfg : Config) (newline : Token) (whitespace : List Token)
    (source : Source) : (∀ t, .token t ∈ source → P t) → (∀ w ∈ whitespace, P w) →
    ∀ {scan ended rest}, scanFrom cfg newline whitespace source = .found scan ended rest → ∀ t ∈ scan.tokens, P t := by
  fun_induction scanFrom cfg newline whitespace source with
  | case1 | case2 | case3 =>
    rintro - hw _ _ _ ⟨⟩ t ht
    exact hw t (by simpa [LineScan.tokens] using ht)
  | case4 | case5 | case9 => rintro - - _ _ _ ⟨⟩
  | case6 newline whitespace u source hc ih =>
    intro hsource hw scan ended rest h t ht
    cases hr : scanFrom cfg u [] source with
    | broken f rest' =>
      rw [hr] at h
      cases h
    | found inner ended' rest' =>
      rw [hr] at h
      obtain ⟨rfl, rfl, rfl⟩ : _ ∧ _ ∧ _ := by simpa [ScanResult.behindBlank] using h
      have hu : P u := hsource u (by simp)
      have hinner := ih (fun t ht => hsource t (by simp [ht])) (by simp) hr
      simp only [LineScan.tokens, LineScan.behindBlank, List.flatMap_cons, List.append_assoc, List.mem_append,
        List.mem_singleton] at ht
      rcases ht with ht | rfl | ht
      · exact hw t ht
      · exact hu
      · exact hinner t (by simpa [LineScan.tokens] using ht)
  | case7 newline whitespace u source hc ih =>
    intro hsource hw scan ended rest h
    refine ih (fun t ht => hsource t (by simp [ht])) (fun w hw' => ?_) h
    rcases List.mem_append.1 hw' with hw' | hw'
    · exact hw w hw'
    · exact List.mem_singleton.1 hw' ▸ hsource u (by simp)
  | case8 newline whitespace u source hc length hm =>
    rintro hsource hw _ _ _ ⟨⟩ t ht
    simp only [LineScan.tokens, List.flatMap_nil, List.nil_append, Option.toList_some, List.mem_append,
      List.mem_singleton] at ht
    rcases ht with ht | rfl
    · exact hw t ht
    · exact hsource t (by simp)

theorem length_of_ended (cfg : Config) (newline : Token) (whitespace : List Token) (source : Source) :
    ∀ {scan rest}, scanFrom cfg newline whitespace source = .found scan true rest → scan.length = .int 0 := by
  fun_induction scanFrom cfg newline whitespace source with
  | case1 | case2 => rintro _ _ ⟨⟩; rfl
  | case3 | case4 | case5 | case8 | case9 => rintro _ _ ⟨⟩
  | case6 newline whitespace u source hc ih =>
    intro scan rest h
    cases hr : scanFrom cfg u [] source with
    | broken f rest' =>
      rw [hr] at h
      cases h
    | found inner ended' rest' =>
      rw [hr] at h
      obtain ⟨rfl, rfl, rfl⟩ : _ ∧ _ ∧ _ := by simpa only [ScanResult.behindBlank, ScanResult.found.injEq] using h
      have hlength : inner.length = .int 0 := ih hr
      exact hlength
  | case7 newline whitespace u source hc ih => exact fun {scan rest} h => ih h

theorem filter_isMarker_arrange (policy : Policy) {newline : Token} {scan : LineScan Token} {markers : List Token}
    (hn : newline.isMarker = false) (hscan : ∀ t ∈ scan.tokens, t.isMarker = false)
    (hm : ∀ m ∈ markers, m.isMarker = true) :
    (arrange policy newline scan markers).filter Token.isMarker = markers := by
  have hnil {ts : List Token} (h : ∀ t ∈ ts, t ∈ scan.tokens) : ts.filter Token.isMarker = [] :=
    List.filter_eq_nil_iff.2 fun t ht => by simp [hscan t (h t ht)]
  have hblank : (scan.blankLines.flatMap (fun line => line.1 ++ [line.2])).filter Token.isMarker = [] :=
    hnil fun t ht => List.mem_append_left _ (List.mem_append_left _ ht)
  have hbreak : (scan.blankLines.flatMap (fun line => [line.2])).filter Token.isMarker = [] := by
    refine hnil fun t ht => List.mem_append_left _ (List.mem_append_left _ ?_)
    obtain ⟨line, hline, ht⟩ := List.mem_flatMap.1 ht
    exact List.mem_flatMap.2 ⟨line, hline, List.mem_append_right _ ht⟩
  have hws : scan.whitespace.filter Token.isMarker = [] :=
    hnil fun t ht => List.mem_append_left _ (List.mem_append_right _ ht)
  have hcontent : scan.content.toList.filter Token.isMarker = [] := hnil fun t ht => List.mem_append_right _ ht
  have hms : markers.filter Token.isMarker = markers := List.filter_eq_self.2 hm
  cases policy <;> simp [arrange, hn, hblank, hbreak, hws, hcontent, hms]

/-! ## Requests -/

/-- Some tokens and some levels that fit together: the markers among the tokens can be read and leave some levels open,
and the ledger has the closing twins of their opening markers. -/
structure Nested (kinds : Kinds) (shown : List Token) (levels : Levels) (opened : List Token) : Prop where
  read : kinds.openAfter [] (shown.filter Token.isMarker) = some opened
  opens : Opens kinds 0 opened.reverse
  pending : levels.ledger.pending = opened.map kinds.closing

namespace Nested

variable {kinds : Kinds} {shown : List Token} {levels levels' : Levels} {opened : List Token}

theorem depth_eq (h : Nested kinds shown levels opened) : levels.depth = opened.length := by
  simp [Levels.depth, Ledger.depth, h.pending]

theorem start (kinds : Kinds) (unit : Datum) : Nested kinds [] (.start unit) [] :=
  ⟨rfl, .nil, rfl⟩

theorem append_unmarked (h : Nested kinds shown levels opened) {ts : List Token}
    (ht : ts.filter Token.isMarker = []) : Nested kinds (shown ++ ts) levels opened :=
  ⟨by rw [List.filter_append, ht, List.append_nil, h.read], h.opens, h.pending⟩

/-- What an indentation does to the levels, the markers that it gives do to the reading. -/
theorem moved (h : Nested kinds shown levels opened) {markers ts : List Token}
    (hm : Levels.Moved kinds levels (.ok markers, levels')) (ht : ts.filter Token.isMarker = markers) :
    ∃ opened', Nested kinds (shown ++ ts) levels' opened' := by
  have hread : kinds.openAfter [] ((shown ++ ts).filter Token.isMarker) = kinds.openAfter opened markers := by
    rw [List.filter_append, kinds.openAfter_append, h.read, Option.bind_some, ht]
  cases hm with
  | closed unit count =>
    refine ⟨opened.drop count, ?_, ?_, ?_⟩
    · rw [hread, h.pending, kinds.openAfter_closing count h.opens]
    · have hsplit := h.opens
      rw [← List.take_append_drop count opened, List.reverse_append, kinds.opens_append] at hsplit
      exact hsplit.1
    · simp [h.pending, List.map_drop]
  | opened unit hms =>
    refine ⟨markers.reverse ++ opened, ?_, ?_, ?_⟩
    · rw [hread, kinds.openAfter_of_opens hms h.depth_eq.symm]
    · rw [List.reverse_append, List.reverse_reverse, kinds.opens_append, List.length_reverse, Nat.zero_add]
      exact ⟨h.opens, h.depth_eq ▸ hms⟩
    · simp [h.pending, List.map_reverse]

theorem closeAll (h : Nested kinds shown levels opened) :
    Nested kinds (shown ++ levels.closeAll.1) levels.closeAll.2 [] := by
  have hall : ∀ m ∈ levels.closeAll.1, m.isMarker = true := by
    intro m hm
    obtain ⟨opening, ho, rfl⟩ := List.mem_map.1 (h.pending ▸ hm : m ∈ opened.map kinds.closing)
    exact h.opens.isMarker opening (List.mem_reverse.2 ho)
  have hread := kinds.openAfter_closing opened.length h.opens
  rw [List.drop_length, List.take_of_length_le (by simp), ← h.pending] at hread
  refine ⟨?_, .nil, rfl⟩
  rw [List.filter_append, List.filter_eq_self.2 hall, kinds.openAfter_append, h.read, Option.bind_some]
  exact hread

end Nested

/-- The tokens that a step gives and those that it leaves to be given. -/
def Step.shown (step : Step) : List Token :=
  step.reply.token?.toList ++ step.stream.buffer

namespace Stream

theorem shown_emit (s : Stream) (rest : Source) (notes : List Note) : (s.emit rest notes).shown = s.buffer := by
  unfold emit Step.shown
  split
  · rename_i hb
    rw [hb]
    rfl
  · rename_i hb
    rw [hb]
    rfl

@[simp]
theorem levels_emit (s : Stream) (rest : Source) (notes : List Note) :
    (s.emit rest notes).stream.levels = s.levels := by
  unfold emit
  split <;> rfl

@[simp]
theorem config_emit (s : Stream) (rest : Source) (notes : List Note) :
    (s.emit rest notes).stream.config = s.config := by
  unfold emit
  split <;> rfl

@[simp]
theorem exhausted_emit (s : Stream) (rest : Source) (notes : List Note) :
    (s.emit rest notes).stream.exhausted = s.exhausted := by
  unfold emit
  split <;> rfl

theorem buffer_of_done_emit {s : Stream} {rest : Source} {notes : List Note}
    (h : (s.emit rest notes).reply = .done) : s.buffer = [] ∧ (s.emit rest notes).stream.buffer = [] := by
  unfold emit at h ⊢
  split at h
  · rename_i hb
    rw [hb]
    exact ⟨rfl, rfl⟩
  · cases h

theorem config_settle (s : Stream) (cfg : Config) (newline : Token) (scan : LineScan Token) (rest : Source) :
    (s.settle cfg newline scan rest).stream.config = s.config := by
  unfold settle
  dsimp only
  split <;> simp

theorem exhausted_settle (s : Stream) (cfg : Config) (newline : Token) (scan : LineScan Token) (rest : Source) :
    (s.settle cfg newline scan rest).stream.exhausted = s.exhausted := by
  unfold settle
  dsimp only
  split <;> simp

/-- A line break at least is given or held back behind a scan, so there is something to give. -/
theorem reply_settle_ne_done (s : Stream) (cfg : Config) (newline : Token) (scan : LineScan Token) (rest : Source) :
    (s.settle cfg newline scan rest).reply ≠ .done := by
  unfold settle
  dsimp only
  split
  · nofun
  · nofun
  · intro h
    cases (buffer_of_done_emit h).1

theorem depth_settle_of_zero {s : Stream} {cfg : Config} {newline : Token} {scan : LineScan Token} {rest : Source}
    (h : scan.length = .int 0) : (s.settle cfg newline scan rest).stream.levels.depth = 0 := by
  have hr : s.levels.reconcile cfg.kinds scan.length scan.content = (.ok s.levels.closeAll.1, s.levels.closeAll.2) := by
    simp [Levels.reconcile, h]
  simp only [settle, hr, levels_emit]
  rfl

theorem nested_settle {s : Stream} {cfg : Config} {newline : Token} {scan : LineScan Token} {rest : Source}
    {given opened : List Token} (hb : s.buffer = []) (hnl : newline.isMarker = false)
    (hscan : ∀ t ∈ scan.tokens, t.IsRaw) (h : Nested cfg.kinds given s.levels opened) : ∃ opened',
      Nested cfg.kinds (given ++ (s.settle cfg newline scan rest).shown)
        (s.settle cfg newline scan rest).stream.levels opened' := by
  have hcolumn : ∀ t ∈ scan.content, ∀ x : Float, t.start.column ≠ .real x := fun t ht =>
    (hscan t (List.mem_append_right _ (Option.mem_toList.2 ht))).column_ne_real
  have hmoved : Levels.Moved cfg.kinds s.levels _ := Levels.reconcile_moved hcolumn s.levels scan.length
  unfold settle
  generalize s.levels.reconcile cfg.kinds scan.length scan.content = outcome at hmoved ⊢
  obtain ⟨result, levels⟩ := outcome
  have hfault {f : Fault} (hm : Levels.Moved cfg.kinds s.levels (.error f, levels)) :
      Nested cfg.kinds (given ++ s.buffer) levels opened := by
    cases hm
    exact ⟨by rw [hb, List.append_nil, h.read], h.opens, h.pending⟩
  dsimp only
  split
  · exact ⟨opened, hfault hmoved⟩
  · exact ⟨opened, hfault hmoved⟩
  · rename_i markers
    rw [shown_emit, levels_emit]
    have hall : ∀ m ∈ markers, m.isMarker = true := by
      cases hmoved with
      | closed unit count =>
        intro m hm
        have hpending : m ∈ opened.map cfg.kinds.closing := h.pending ▸ List.mem_of_mem_take hm
        obtain ⟨opening, ho, rfl⟩ := List.mem_map.1 hpending
        exact h.opens.isMarker opening (List.mem_reverse.2 ho)
      | opened unit hms => exact hms.isMarker
    exact h.moved hmoved (filter_isMarker_arrange s.policy hnl (fun t ht => (hscan t ht).unmarked) hall)

end Stream

namespace Request

variable {cfg : Config} {s : Stream} {source : Source} {step : Step}

theorem config_eq (h : Request cfg s source step) : step.stream.config = s.config := by
  cases h with
  | closed => exact Stream.config_emit _ _ _
  | scanned => exact Stream.config_settle _ _ _ _ _
  | stopped | held | broken | passed => rfl

/-- **A request keeps the markers nested**, those given before it, by it and still held back. -/
theorem nested {given opened : List Token} (h : Request cfg s source step) (hraw : ∀ t, .token t ∈ source → t.IsRaw)
    (hn : Nested cfg.kinds (given ++ s.buffer) s.levels opened) :
    ∃ opened', Nested cfg.kinds (given ++ step.shown) step.stream.levels opened' := by
  cases h with
  | stopped => exact ⟨opened, hn⟩
  | broken => exact ⟨opened, hn⟩
  | held he hb =>
    rw [hb] at hn
    exact ⟨opened, hn⟩
  | closed he hb hnone =>
    rw [hb, List.append_nil] at hn
    refine ⟨[], ?_⟩
    rw [Stream.close, Stream.shown_emit, Stream.levels_emit]
    exact hn.closeAll
  | @passed t rest he hb hx hc =>
    rw [hb, List.append_nil] at hn
    refine ⟨opened, hn.append_unmarked ?_⟩
    simp [Step.shown, Reply.token?, hb, (hraw t (by simp)).unmarked]
  | @scanned t source rest scan ended he hb hx hc hs =>
    rw [hb, List.append_nil] at hn
    have hsource : ∀ u, .token u ∈ source → u.IsRaw := fun u hu => hraw u (by simp [hu])
    have hrest := forall_tokens_of_scanFrom (P := Token.IsRaw) cfg t [] source hsource (by simp) hs
    exact Stream.nested_settle (s := { s with exhausted := ended }) hb (hraw t (by simp)).unmarked hrest hn

theorem depth_of_exhausted (h : Request cfg s source step) (hs : s.exhausted = true → s.levels.depth = 0)
    (hx : step.stream.exhausted = true) : step.stream.levels.depth = 0 := by
  cases h with
  | stopped | held | broken | passed => exact hs hx
  | closed =>
    rw [Stream.close, Stream.levels_emit]
    rfl
  | scanned he hb hx' hc hsc =>
    rw [Stream.exhausted_settle] at hx
    dsimp only at hx
    exact Stream.depth_settle_of_zero (length_of_ended _ _ _ _ (hx ▸ hsc))

theorem empty_of_done (h : Request cfg s source step) (hr : step.reply = .done) :
    step.stream.buffer = [] ∧ step.stream.levels.depth = 0 := by
  cases h with
  | stopped | held | broken | passed => cases hr
  | closed =>
    refine ⟨(Stream.buffer_of_done_emit hr).2, ?_⟩
    rw [Stream.close, Stream.levels_emit]
    rfl
  | scanned => exact absurd hr (Stream.reply_settle_ne_done _ _ _ _ _)

end Request
/-! ## Runs -/

/-- What a run keeps: its stream stays configured, its source raw, its markers nested, and no level is open where the
source is taken to be over, or where the last request found no token. -/
structure Run.Nests (cfg : Config) (r : Run) : Prop where
  config : r.stream.config = some cfg
  raw : ∀ t, .token t ∈ r.rest → t.IsRaw
  nested : ∃ opened, Nested cfg.kinds r.shown r.stream.levels opened
  exhausted : r.stream.exhausted = true → r.stream.levels.depth = 0
  done : r.replies.getLast? = some .done → r.stream.buffer = [] ∧ r.stream.levels.depth = 0

theorem Run.shown_next (r : Run) : r.next.shown = r.tokens ++ (r.stream.next r.rest).shown := by
  rw [shown, tokens_next, Step.shown, List.append_assoc]
  rfl

theorem Run.Nests.next {cfg : Config} {r : Run} (h : r.Nests cfg) : r.next.Nests cfg := by
  obtain ⟨opened, hn⟩ := h.nested
  have hreq := Stream.request_next h.config r.rest
  constructor
  · exact hreq.config_eq.trans h.config
  · exact fun t ht => h.raw t ((Stream.rest_next_suffix r.stream r.rest).subset ht)
  · rw [shown_next]
    exact hreq.nested h.raw hn
  · exact hreq.depth_of_exhausted h.exhausted
  · intro hd
    exact hreq.empty_of_done (by simpa [Run.next] using hd)

theorem Run.nests_of {cfg : Config} {source : Source} (hraw : ∀ t, .token t ∈ source → t.IsRaw) :
    ∀ n, (Run.of (.ofConfig cfg) source n).Nests cfg :=
  Run.induction
    { config := rfl
      raw := hraw
      nested := ⟨[], .start cfg.kinds (.int cfg.unit)⟩
      exhausted := nofun
      done := nofun }
    fun _ => Run.Nests.next

/-- **The markers of a stream nest, whatever its source replies and however often it is asked.**  Those given so far and
those held back can be read as brackets, and leave some levels open.  These are the levels of the ledger, which holds
the closing twins of their opening markers from the outermost inward.  There is none of them where the last request
found no token, and none where the source is over. -/
theorem Stream.markers_nest (cfg : Config) (source : Source) (hraw : ∀ t, .token t ∈ source → t.IsRaw) (n : Nat) :
    let r := Run.of (.ofConfig cfg) source n
    ∃ opened : List Token,
      cfg.kinds.openAfter [] (r.shown.filter Token.isMarker) = some opened ∧
      r.stream.levels.depth = opened.length ∧
      r.stream.levels.ledger.toList = opened.reverse.map cfg.kinds.closing ∧
      (r.replies.getLast? = some .done → r.stream.buffer = [] ∧ opened = []) ∧
      (r.stream.exhausted = true → opened = []) := by
  intro r
  have h : r.Nests cfg := Run.nests_of hraw n
  obtain ⟨opened, hn⟩ := h.nested
  have hnil (hd : r.stream.levels.depth = 0) : opened = [] :=
    List.length_eq_zero_iff.1 (hn.depth_eq.symm.trans hd)
  refine ⟨opened, hn.read, hn.depth_eq, ?_, fun hd => ?_, fun hx => hnil (h.exhausted hx)⟩
  rotate_left
  · exact ⟨(h.done hd).1, hnil (h.done hd).2⟩
  rw [Ledger.toList, hn.pending, List.map_reverse]

/-- A source with a jump of two levels, a gap while they are open, and a fault in a scan. -/
def interruptedSource : Source :=
  [.token (.inColumn "WORD" "a" 1), .token (.inColumn "NL" "\n" 2), .token (.inColumn "WS" "    " 1),
    .token (.inColumn "WORD" "b" 5), .gap, .token (.inColumn "NL" "\n" 6), .fault (.source "lost"),
    .token (.inColumn "NL" "\n" 1), .token (.inColumn "WS" "  " 1), .token (.inColumn "WORD" "c" 3), .done]

theorem isRaw_of_mem_interruptedSource : ∀ t, .token t ∈ interruptedSource → t.IsRaw := by
  intro t ht
  simp only [interruptedSource, List.mem_cons, Reply.token.injEq, reduceCtorEq, List.not_mem_nil, or_false,
    false_or] at ht
  rcases ht with rfl | rfl | rfl | rfl | rfl | rfl | rfl | rfl <;> exact Token.isRaw_inColumn _ _ _

theorem Stream.markers_nest_interrupted :
    (∀ t, .token t ∈ interruptedSource → t.IsRaw) ∧
    let r := Run.of (.ofConfig (wordConfig .before 2)) interruptedSource 12
    ∃ opened : List Token,
      wordKinds.openAfter [] (r.shown.filter Token.isMarker) = some opened ∧
      r.stream.levels.depth = opened.length ∧
      r.stream.levels.ledger.toList = opened.reverse.map wordKinds.closing ∧
      (r.replies.getLast? = some .done → r.stream.buffer = [] ∧ opened = []) ∧
      (r.stream.exhausted = true → opened = []) :=
  ⟨isRaw_of_mem_interruptedSource,
    Stream.markers_nest (wordConfig .before 2) interruptedSource isRaw_of_mem_interruptedSource 12⟩

end Offside
