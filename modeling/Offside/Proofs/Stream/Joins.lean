import Offside.Proofs.Outline.Words
import Offside.Proofs.Stream.Breaks
import Offside.Proofs.Stream.Shifts
/-!
# Tokens of texts behind one another

A text that ends with a line break is cut into tokens apart from the next one, whose tokens stand further on
(`tokenize_append`).  A line of blanks alone behind a line break adds its own tokens there, and moves what stands behind
it (`tokenize_insert`).
-/
namespace Offside

/-! ## On which side of a break -/

/-- Whether a number of a place is an integer from a limit on. -/
def Datum.reaches (limit : Nat) : Datum → Bool
  | .int n => decide ((limit : Int) ≤ n)
  | _ => false

/-- A token moved if it starts behind a limit. -/
def Token.shiftedFrom (limit : Cursor) (d : Shift) (t : Token) : Token :=
  if t.start.offset.reaches limit.offset = true then t.shifted d else t

/-- Whether a fault is about a place behind a limit. -/
def Fault.reaches (limit : Cursor) : Fault → Bool
  | .indent e => e.line.reaches limit.line
  | .stray e => decide (limit.offset ≤ e.offset)
  | _ => false

def Fault.shiftedFrom (limit : Cursor) (d : Shift) (f : Fault) : Fault :=
  if f.reaches limit = true then f.shifted d else f

/-- A cursor in the lines in front of a limit. -/
def Cursor.Precedes (pos limit : Cursor) : Prop :=
  pos.offset < limit.offset ∧ pos.line < limit.line

/-- A cursor from a limit on. -/
def Cursor.Follows (pos limit : Cursor) : Prop :=
  limit.offset ≤ pos.offset ∧ limit.line ≤ pos.line

theorem relocates_shifted (kinds : Kinds) (d : Shift) : Relocates kinds (Token.shifted d) where
  type _ := rfl
  value _ _ := rfl
  carried _ := rfl
  column _ := rfl
  opening _ _ _ := rfl
  closing _ _ := rfl

theorem relocates_shiftedFrom (kinds : Kinds) (limit : Cursor) (d : Shift) :
    Relocates kinds (Token.shiftedFrom limit d) where
  type t := by unfold Token.shiftedFrom; split <;> rfl
  value t _ := by unfold Token.shiftedFrom; split <;> rfl
  carried t := by unfold Token.shiftedFrom; split <;> rfl
  column t := by unfold Token.shiftedFrom; split <;> rfl
  opening unit t level := by
    have hstart : (t.opening kinds unit level).start.offset = t.start.offset := rfl
    unfold Token.shiftedFrom
    rw [hstart]
    split <;> rfl
  closing t _ := by
    have hstart : (kinds.closing t).start.offset = t.start.offset := rfl
    unfold Token.shiftedFrom
    rw [hstart]
    split <;> rfl

section
variable {pos limit : Cursor} {t : Token} {d : Shift}

theorem Datum.reaches_int (limit n : Nat) : (Datum.int n).reaches limit = decide (limit ≤ n) := by
  simp [reaches]

theorem Token.shiftedFrom_of_precedes (h : pos.Precedes limit) (ht : t.start = pos.place) : t.shiftedFrom limit d = t := by
  have hoffset : t.start.offset.reaches limit.offset = false := by
    rw [ht]
    exact (Datum.reaches_int _ _).trans (decide_eq_false (Nat.not_le.2 h.1))
  rw [shiftedFrom, hoffset, if_neg Bool.false_ne_true]

theorem Token.shiftedFrom_of_follows (h : pos.Follows limit) (ht : t.start = pos.place) :
    t.shiftedFrom limit d = t.shifted d := by
  have hoffset : t.start.offset.reaches limit.offset = true := by
    rw [ht]
    exact (Datum.reaches_int _ _).trans (decide_eq_true h.1)
  rw [shiftedFrom, if_pos hoffset]

/-- What is moved to a place in front of the limit was not moved. -/
theorem Token.eq_of_shiftedFrom {u : Token} (h : pos.Precedes limit) (hu : u.start = pos.place)
    (heq : t.shiftedFrom limit d = u) : t = u := by
  unfold shiftedFrom at heq
  split at heq
  · rename_i hreaches
    have hoffset : (t.start.offset.raised d.offset) = .int pos.offset := by
      rw [← heq] at hu
      exact congrArg Place.offset hu
    cases ht : t.start.offset with
    | int n =>
      rw [ht] at hoffset hreaches
      have hn := Datum.int.inj hoffset
      have hlimit : (limit.offset : Int) ≤ n := of_decide_eq_true hreaches
      have hpos := h.1
      omega
    | null | bool | real | text | list | record =>
      rw [ht] at hoffset
      cases hoffset
  · exact heq

theorem Fault.shiftedFrom_of_precedes (h : pos.Precedes limit) : pos.stray.shiftedFrom limit d = pos.stray := by
  have hoffset : pos.stray.reaches limit = false := decide_eq_false (Nat.not_le.2 h.1)
  rw [shiftedFrom, hoffset, if_neg Bool.false_ne_true]

theorem Fault.shiftedFrom_of_follows (h : pos.Follows limit) : pos.stray.shiftedFrom limit d = pos.stray.shifted d := by
  have hoffset : pos.stray.reaches limit = true := decide_eq_true h.1
  rw [shiftedFrom, if_pos hoffset]

/-- A refusal is moved with the token that it is about. -/
theorem Fault.shiftedFrom_indent (h : pos.Precedes limit ∨ pos.Follows limit) (ht : t.start = pos.place)
    (length unit : Datum) :
    (Fault.indent ⟨length, unit, t.start.line, t.start.column⟩).shiftedFrom limit d =
      .indent ⟨length, unit, (t.shiftedFrom limit d).start.line, t.start.column⟩ := by
  have hline (n : Nat) (hn : pos.line = n) : (Fault.indent ⟨length, unit, t.start.line, t.start.column⟩).reaches limit =
      decide (limit.line ≤ n) := by
    rw [ht, ← hn]
    exact Datum.reaches_int _ _
  rcases h with h | h
  · rw [Token.shiftedFrom_of_precedes h ht, shiftedFrom, hline _ rfl, decide_eq_false (Nat.not_le.2 h.2),
      if_neg Bool.false_ne_true]
  · rw [Token.shiftedFrom_of_follows h ht, shiftedFrom, hline _ rfl, decide_eq_true h.2, if_pos rfl]
    rfl

end

namespace Cursor

theorem precedes_behind {front read left : List Char} (hfront : front.getLast? = some '\n')
    (h : front = read ++ left) (hne : left ≠ []) : (behind read).Precedes (behind front) := by
  subst h
  rw [List.getLast?_append_of_ne_nil _ hne] at hfront
  have hcount := List.count_pos_iff.2 (List.mem_of_getLast? hfront)
  have hlength := List.length_pos_iff.2 hne
  simp only [Precedes, behind, List.length_append, List.count_append]
  omega

theorem follows_behind (front rest : List Char) : (behind (front ++ rest)).Follows (behind front) := by
  simp only [Follows, behind, List.length_append, List.count_append]
  omega

theorem shifted_shifted (pos : Cursor) (d e : Shift) :
    (pos.shifted d).shifted e = pos.shifted ⟨d.offset + e.offset, d.line + e.line⟩ := by
  simp [shifted, Nat.add_assoc]

/-- Behind one more line break, a cursor stands in the same column, but further on. -/
theorem advance_of_break {front text : List Char} (hfront : front.getLast? = some '\n')
    (htext : text.getLast? = some '\n') : (behind front).advance text = (behind front).shifted (.of text) := by
  have hne : text ≠ [] := by
    rintro rfl
    cases htext
  have hboth : (front ++ text).getLast? = some '\n' := by rw [List.getLast?_append_of_ne_nil _ hne, htext]
  rw [advance_behind, behind_of_break hboth, behind_of_break hfront, shifted_shifted]
  simp [Shift.of]

/-- Every cut of a text is on one side of a line break in it. -/
theorem precedes_or_follows {front text read left : List Char} (hfront : front.getLast? = some '\n')
    (h : front ++ text = read ++ left) :
    (behind read).Precedes (behind front) ∨ (behind read).Follows (behind front) := by
  rcases List.append_eq_append_iff.1 h with ⟨more, rfl, -⟩ | ⟨more, rfl, -⟩
  · exact .inr (follows_behind front more)
  · by_cases hmore : more = []
    · subst hmore
      refine .inr ?_
      rw [List.append_nil]
      exact ⟨Nat.le_refl _, Nat.le_refl _⟩
    · exact .inl (precedes_behind hfront rfl hmore)

end Cursor

/-! ## Scanning -/

theorem Scanner.exists_tokens (sc : Scanner) (pos : Cursor) (cs : List Char) :
    ∃ ts failure, sc.scanFrom pos cs = Source.ofTokensUntil ts failure := by
  fun_induction scanFrom sc pos cs with
  | case1 => exact ⟨[], none, rfl⟩
  | case2 pos => exact ⟨[], some pos.stray, rfl⟩
  | case3 pos c rest l more _ stop ih =>
    obtain ⟨ts, failure, hscan⟩ := ih
    refine ⟨(l.token? pos stop).toList ++ ts, failure, ?_⟩
    rw [hscan, Source.ofTokens_append_until]
    cases l.token? pos stop <;> rfl

theorem Scanner.scanFrom_empty (sc : Scanner) (pos : Cursor) :
    sc.scanFrom pos "".toList = Source.ofTokensUntil [] none := by
  rw [String.toList_empty, scanFrom]
  rfl

/-- Where the tokens of a text behind another one stand, and the fault that ends them. -/
theorem Scanner.at_of_scanFrom {sc : Scanner} (front : List Char) {cs : List Char} {ts : List Token} {failure : Option Fault}
    (h : sc.scanFrom (.behind front) cs = Source.ofTokensUntil ts failure) :
    (∀ t ∈ ts, ∃ read left, cs = read ++ left ∧ left ≠ [] ∧ t.start = (Cursor.behind (front ++ read)).place) ∧
      ∀ f ∈ failure, ∃ read left, cs = read ++ left ∧ left ≠ [] ∧ f = (Cursor.behind (front ++ read)).stray := by
  have hat := sc.isAt_of_mem_scanFrom (.behind front) cs
  rw [h] at hat
  refine ⟨fun t ht => ?_, fun f hf => ?_⟩
  · obtain ⟨read, left, hcs, hne, hread⟩ := hat (.token t) (List.mem_append_left _ (List.mem_map_of_mem ht))
    rw [Cursor.advance_behind] at hread
    cases hread with
    | token hstart => exact ⟨read, left, hcs, hne, hstart⟩
  · have hmem : Reply.fault f ∈ (failure.map Reply.fault).toList := by simp [Option.mem_def.1 hf]
    obtain ⟨read, left, hcs, hne, hread⟩ := hat (.fault f) (List.mem_append_right _ hmem)
    rw [Cursor.advance_behind] at hread
    generalize hr : Reply.fault f = r at hread
    cases hread with
    | token => cases hr
    | stray => exact ⟨read, left, hcs, hne, Reply.fault.inj hr⟩

theorem Scanner.of_isWordChar {c : Char} (h : isWordChar c = true) :
    Text.isBlankChar c = false ∧ c ≠ '\r' ∧ c ≠ '\n' := by
  simpa [isWordChar, and_assoc] using h

/-- A word at the front of a text is its first token. -/
theorem Variant.scanFrom_word (v : Variant) {c : Char} (hc : Scanner.isWordChar c = true) (pos : Cursor)
    (rest : List Char) :
    ∃ word more, v.scanner.scanFrom pos (c :: rest) = .token (tokenAt (.name "WORD") pos word) :: more := by
  obtain ⟨hblank, hr, hn⟩ := Scanner.of_isWordChar hc
  have hlexeme : v.scanner.lexeme? c rest =
      some (⟨some (.name "WORD"), c :: rest.takeWhile Scanner.isWordChar⟩, rest.dropWhile Scanner.isWordChar) := by
    simp [Scanner.lexeme?, hblank, hr, hn, scanner]
  exact ⟨_, _, Scanner.scanFrom_of_lexeme hlexeme pos⟩

/-- A word scanner reads a text that ends with a line break apart from what is behind it. -/
theorem Variant.scan_break (v : Variant) {front : String} (hfront : front.toList.getLast? = some '\n') :
    let scan (text : String) := v.scanner.scanFrom .start text.toList
    (∃ ts f, ∀ text, scan (front ++ text) = Source.ofTokensUntil ts (some f)) ∨
      ∃ before head ending, front.toList = head ++ ending ∧ (ending = ['\n'] ∨ ending = ['\r', '\n']) ∧
        ∀ text ts failure,
          v.scanner.scanFrom (.behind front.toList) text.toList = Source.ofTokensUntil ts failure →
          scan (front ++ text) =
            Source.ofTokensUntil (before ++ tokenAt (.name "NL") (.behind head) ending :: ts) failure := by
  intro scan
  have hscan (text : String) : scan (front ++ text) = v.scanner.scanFrom .start (front.toList ++ text.toList) :=
    congrArg _ String.toList_append
  have hbreak : v.scanner.inWord '\n' = false := rfl
  rcases Scanner.scanFrom_append hbreak .start front.toList hfront with ⟨ts, f, hfails⟩ | ⟨before, head, ending, hends,
    hending, hreads⟩
  · exact .inl ⟨ts, f, fun text => (hscan text).trans (hfails text.toList)⟩
  · refine .inr ⟨before, head, ending, hends, hending, fun text ts failure htext => ?_⟩
    rw [hscan, hreads, Cursor.start_advance, Cursor.start_advance, htext, ← Source.ofTokens_append_until,
      List.append_assoc]
    rfl

/-- The tokens of a run of blanks, which may be empty. -/
def Variant.blankTokens (v : Variant) (pos : Cursor) (run : List Char) : List Token :=
  match v with
  | .space => if run = [] then [] else [tokenAt (.name "WS") pos run]
  | .spaces => blanksAt (.name "WS") pos run
  | .ignore => []

/-- The tokens of a line of blanks alone that a stream gives under a policy. -/
def Variant.blankLine (v : Variant) (policy : Policy) (pos : Cursor) (run ending : List Char) : List Token :=
  let newline := tokenAt (.name "NL") (pos.advance run) ending
  match policy with
  | .skip => [newline]
  | .before | .after => v.blankTokens pos run ++ [newline]

theorem Variant.isBlank_blankTokens (v : Variant) (pos : Cursor) (run : List Char) :
    ∀ t ∈ v.blankTokens pos run, t.isBlank = true := by
  unfold blankTokens
  cases v with
  | space =>
    dsimp only
    split
    · simp
    · simp [Token.isBlank, tokenAt]
  | spaces => exact isBlank_blanksAt pos run
  | ignore => simp

theorem Variant.keptGap_blankTokens (v : Variant) (policy : Policy) (unit : Nat) (pos : Cursor) (run ending : List Char) :
    (wordConfig policy unit).keptGap (v.blankTokens pos run ++ [tokenAt (.name "NL") (pos.advance run) ending]) =
      v.blankLine policy pos run ending := by
  cases policy with
  | before | after => rfl
  | skip =>
    have hnone : (v.blankTokens pos run).filter (fun t => !t.isBlank) = [] :=
      List.filter_eq_nil_iff.2 fun t ht => by simp [v.isBlank_blankTokens pos run t ht]
    rw [Config.keptGap_append]
    unfold Config.keptGap
    rw [isWhitespace_wordConfig]
    show (v.blankTokens pos run).filter _ ++ _ = _
    rw [hnone]
    rfl

/-- Whether a token is neither white space nor a line break: a word or a marker. -/
def Token.isSolid (t : Token) : Bool :=
  !t.isBlank && t.type ≠ .name "NL"

theorem Token.isSolid_shiftedFrom (limit : Cursor) (d : Shift) (t : Token) :
    (t.shiftedFrom limit d).isSolid = t.isSolid := by
  have htype := (relocates_shiftedFrom wordKinds limit d).type t
  rw [isSolid, isSolid, isBlank, isBlank, htype]

theorem Token.isSolid_newline {t : Token} (h : t.type = .name "NL") : t.isSolid = false := by
  rw [isSolid, h]
  exact Bool.and_false _

theorem Variant.filter_isSolid_blankLine (v : Variant) (policy : Policy) (pos : Cursor) (run ending : List Char) :
    (v.blankLine policy pos run ending).filter Token.isSolid = [] := by
  have hnewline : (tokenAt (.name "NL") (pos.advance run) ending).isSolid = false := Token.isSolid_newline rfl
  have hblanks : (v.blankTokens pos run).filter Token.isSolid = [] :=
    List.filter_eq_nil_iff.2 fun t ht => by simp [Token.isSolid, v.isBlank_blankTokens pos run t ht]
  cases policy <;> simp [blankLine, hnewline, hblanks]

/-- A line of blanks alone moves what is behind it by its length and by one line. -/
theorem Shift.of_blankLine {run ending : List Char} (hrun : ∀ c ∈ run, Text.isBlankChar c = true)
    (hending : ending = ['\n'] ∨ ending = ['\r', '\n']) : Shift.of (run ++ ending) = ⟨(run ++ ending).length, 1⟩ := by
  have hnone : run.count '\n' = 0 := List.count_eq_zero.2 fun h => Text.ne_newline_of_blank (hrun _ h) rfl
  have hone : ending.count '\n' = 1 := by rcases hending with rfl | rfl <;> rfl
  rw [Shift.of, List.count_append, hnone, hone]

/-- A line of blanks alone is scanned on its own. -/
theorem Variant.scan_blankLine (v : Variant) {run ending : List Char} (hrun : ∀ c ∈ run, Text.isBlankChar c = true)
    (hending : ending = ['\n'] ∨ ending = ['\r', '\n']) (pos : Cursor) (rest : List Char) :
    v.scanner.scanFrom pos (run ++ (ending ++ rest)) =
      Source.ofTokens (v.blankTokens pos run ++ [tokenAt (.name "NL") (pos.advance run) ending]) ++
        v.scanner.scanFrom (pos.advance (run ++ ending)) rest := by
  have hhead : ∀ c ∈ (ending ++ rest).head?, Text.isBlankChar c = false := by
    rcases hending with rfl | rfl <;> simp [Text.isBlankChar]
  have hblanks : v.scanner.scanFrom pos (run ++ (ending ++ rest)) =
      Source.ofTokens (v.blankTokens pos run) ++ v.scanner.scanFrom (pos.advance run) (ending ++ rest) := by
    by_cases hne : run = []
    · subst hne
      cases v <;> rfl
    · cases v with
      | spaces => exact Scanner.scan_blanks rfl rfl hrun pos
      | space =>
        rw [Scanner.scan_run rfl hne hrun hhead, blankTokens, if_neg hne]
        rfl
      | ignore => exact Scanner.scan_run rfl hne hrun hhead pos
  rw [hblanks, Scanner.scan_newline hending, Cursor.advance_append, Source.ofTokens, Source.ofTokens, List.map_append,
    List.append_assoc]
  rfl

/-! ## Two texts -/

theorem tokenize_empty (v : Variant) (policy : Policy) (unit : Nat) : tokenize "" v policy unit = .ok [] := by
  obtain ⟨-, hgiven⟩ := tokenize_of_layout (v.scanner.scanFrom_empty .start)
  rw [segments] at hgiven
  exact hgiven rfl

section
variable {front : String} (hfront : front.toList.getLast? = some '\n') (v : Variant) (policy : Policy)
include hfront

/-- A text that begins with a word is cut into tokens apart from one in front of it that ends with a line break. -/
theorem tokenize_append_word {text : String} {c : Char} {rest : List Char} (htext : text.toList = c :: rest)
    (hc : Scanner.isWordChar c = true) {unit : Nat} (hunit : unit ≠ 0) :
    let d := Shift.of front.toList
    tokenize (front ++ text) v policy unit = (do
      let ts ← tokenize front v policy unit
      let us ← (tokenize text v policy unit).mapError (Fault.shifted d)
      return ts ++ us.map (Token.shifted d)) := by
  intro d
  let cfg := wordConfig policy unit
  rcases v.scan_break hfront with ⟨ts, f, hscan⟩ | ⟨before, head, ending, -, hending, hscan⟩
  · -- the first text cannot be read, and what is behind it does not matter
    have hfirst := hscan ""
    have hboth := hscan text
    rw [String.append_empty] at hfirst
    obtain ⟨g, hg⟩ := Option.ne_none_iff_exists'.1 (fault_layout_ne_none cfg f (segments cfg ts) unit [])
    rw [(tokenize_of_layout hboth).1 g hg, (tokenize_of_layout hfirst).1 g hg]
    rfl
  · obtain ⟨us, failure, hus⟩ := v.scanner.exists_tokens .start text.toList
    have hnewline := isPlain_tokenAt "NL" (.behind head) (trailingIndent_newline hending)
    have hfirst := hscan "" [] none (v.scanner.scanFrom_empty _)
    have hboth := hscan text (us.map (Token.shifted d)) (failure.map (Fault.shifted d))
      (by rw [Cursor.behind_of_break hfront, Scanner.scanFrom_shifted, hus, map_shifted_ofTokensUntil])
    rw [String.append_empty] at hfirst
    -- the second text begins with a word that stands in the first column
    obtain ⟨word, more, rfl⟩ : ∃ word more, us = tokenAt (.name "WORD") .start word :: more := by
      obtain ⟨word, replies, hword⟩ := v.scanFrom_word hc .start rest
      rw [htext, hword] at hus
      cases us with
      | nil => cases failure <;> cases hus
      | cons u us => exact ⟨word, us, congrArg (· :: us) (Reply.token.inj (List.cons.inj hus).1).symm⟩
    let first := tokenAt (.name "WORD") .start word
    have hcontent : cfg.classify (first.shifted d) = .other := rfl
    obtain ⟨htokens, hfault⟩ := (relocates_shifted cfg.kinds d).layout_map (Fault.shifted d) failure (first :: more)
      (fun _ _ _ _ => rfl) unit
    obtain ⟨hfails, hjoined⟩ := layout_append (Outline.classify_newline_word hnewline policy unit) hnewline.carried
      hcontent rfl hunit (failure.map (Fault.shifted d)) before (more.map (Token.shifted d))
    obtain ⟨hrefused, hgiven⟩ := tokenize_of_layout hfirst
    obtain ⟨hrefused', hgiven'⟩ := tokenize_of_layout hus
    obtain ⟨hrefused'', hgiven''⟩ := tokenize_of_layout hboth
    cases hf : (layout cfg none unit [] (segments cfg (before ++ [tokenAt (.name "NL") (.behind head) ending]))).fault with
    | some f =>
      rw [hrefused'' f (hfails f hf), hrefused f hf]
      rfl
    | none =>
      obtain ⟨hsame, hboth⟩ := hjoined hf
      have hsame := hsame.trans hfault
      rw [hgiven hf]
      cases hs : (layout cfg failure unit [] (segments cfg (first :: more))).fault with
      | some f =>
        rw [hs] at hsame hfault
        rw [hrefused'' (f.shifted d) hsame, hrefused' f hs]
        rfl
      | none =>
        rw [hs] at hsame hfault
        rw [hgiven'' hsame, hgiven' hs]
        exact congrArg Except.ok ((hboth hfault).trans (congrArg (_ ++ ·) htokens))

/-- **A text that is empty or begins with a word is cut into tokens apart from one in front of it that ends with a line
break**, where the unit is fixed. -/
theorem tokenize_append {text : String} (hword : ∀ c ∈ text.toList.head?, Scanner.isWordChar c = true) {unit : Nat}
    (hunit : unit ≠ 0) :
    let d := Shift.of front.toList
    tokenize (front ++ text) v policy unit = (do
      let ts ← tokenize front v policy unit
      let us ← (tokenize text v policy unit).mapError (Fault.shifted d)
      return ts ++ us.map (Token.shifted d)) := by
  intro d
  cases htext : text.toList with
  | nil =>
    obtain rfl := String.toList_eq_nil_iff.1 htext
    rw [String.append_empty, tokenize_empty]
    cases tokenize front v policy unit with
    | error f => rfl
    | ok ts => exact congrArg Except.ok (List.append_nil ts).symm
  | cons c rest => exact tokenize_append_word hfront v policy htext (hword c (by rw [htext]; rfl)) hunit

/-- What a scanner sees where a line of blanks alone is put behind a line break: the same if the text in front of it
cannot be read, and otherwise the tokens of that line, between tokens that stay and tokens that move. -/
theorem scan_insert {blank : String} {run ending : List Char} (hblank : blank.toList = run ++ ending)
    (text : String) (hrun : ∀ c ∈ run, Text.isBlankChar c = true) (hending : ending = ['\n'] ∨ ending = ['\r', '\n']) :
    let limit := Cursor.behind front.toList
    let d : Shift := ⟨blank.length, 1⟩
    let scan (text : String) := v.scanner.scanFrom .start text.toList
    (∃ ts f, scan (front ++ text) = Source.ofTokensUntil ts (some f) ∧
      scan (front ++ blank ++ text) = Source.ofTokensUntil ts (some f) ∧
      ts.map (Token.shiftedFrom limit d) = ts ∧ f.shiftedFrom limit d = f) ∨
    ∃ before head ending' after failure, front.toList = head ++ ending' ∧ (ending' = ['\n'] ∨ ending' = ['\r', '\n']) ∧
      let newline := tokenAt (.name "NL") (.behind head) ending'
      let added := v.blankTokens limit run ++ [tokenAt (.name "NL") (limit.advance run) ending]
      scan (front ++ text) = Source.ofTokensUntil (before ++ newline :: after) failure ∧
      scan (front ++ blank ++ text) =
        Source.ofTokensUntil (before ++ newline :: (added ++ after.map (Token.shiftedFrom limit d)))
          (failure.map (Fault.shiftedFrom limit d)) ∧
      (before ++ [newline]).map (Token.shiftedFrom limit d) = before ++ [newline] := by
  intro limit d scan
  have hlist : (blank ++ text).toList = run ++ (ending ++ text.toList) := by
    rw [String.toList_append, hblank, List.append_assoc]
  -- what is in front of the blank line stays
  have hstays {ts : List Token} {failure : Option Fault}
      (h : v.scanner.scanFrom .start front.toList = Source.ofTokensUntil ts failure) :
      ts.map (Token.shiftedFrom limit d) = ts := by
    refine (List.map_congr_left fun t ht => ?_).trans (List.map_id ts)
    obtain ⟨read, left, hread, hne, hstart⟩ := (Scanner.at_of_scanFrom [] h).1 t ht
    exact Token.shiftedFrom_of_precedes (Cursor.precedes_behind hfront hread hne) hstart
  rcases v.scan_break hfront with ⟨ts, f, hscan⟩ | ⟨before, head, ending', hends, hending', hscan⟩
  · have hfirst := hscan text
    have hboth := hscan (blank ++ text)
    have hfront' := hscan ""
    rw [← String.append_assoc] at hboth
    rw [String.append_empty] at hfront'
    refine .inl ⟨ts, f, hfirst, hboth, hstays hfront', ?_⟩
    obtain ⟨read, left, hread, hne, rfl⟩ := (Scanner.at_of_scanFrom [] hfront').2 f rfl
    exact Fault.shiftedFrom_of_precedes (Cursor.precedes_behind hfront hread hne)
  · obtain ⟨after, failure, hafter⟩ := v.scanner.exists_tokens limit text.toList
    have hstop : limit.advance (run ++ ending) = limit.shifted d := by
      have hbreak : (run ++ ending).getLast? = some '\n' := by rcases hending with rfl | rfl <;> simp
      rw [Cursor.advance_of_break hfront hbreak, Shift.of_blankLine hrun hending, ← hblank, String.length_toList]
    -- what is behind it moves
    have hmoves : after.map (Token.shiftedFrom limit d) = after.map (Token.shifted d) := List.map_congr_left fun t ht => by
      obtain ⟨read, left, -, -, hstart⟩ := (Scanner.at_of_scanFrom _ hafter).1 t ht
      exact Token.shiftedFrom_of_follows (Cursor.follows_behind front.toList read) hstart
    have hfails : failure.map (Fault.shiftedFrom limit d) = failure.map (Fault.shifted d) := Option.map_congr fun f hf => by
      obtain ⟨read, left, -, -, rfl⟩ := (Scanner.at_of_scanFrom _ hafter).2 f hf
      exact Fault.shiftedFrom_of_follows (Cursor.follows_behind front.toList read)
    have hfirst := hscan text after failure hafter
    have hadded : v.scanner.scanFrom limit (blank ++ text).toList = Source.ofTokensUntil
        (v.blankTokens limit run ++ [tokenAt (.name "NL") (limit.advance run) ending] ++ after.map (Token.shifted d))
        (failure.map (Fault.shifted d)) := by
      rw [hlist, v.scan_blankLine hrun hending, hstop, Scanner.scanFrom_shifted, hafter, map_shifted_ofTokensUntil,
        Source.ofTokens_append_until]
    have hboth := hscan _ _ _ hadded
    have hfront' := hscan "" [] none (v.scanner.scanFrom_empty _)
    rw [← String.append_assoc, ← hmoves, ← hfails] at hboth
    rw [String.append_empty] at hfront'
    exact .inr ⟨before, head, ending', after, failure, hends, hending', hfirst, hboth, hstays hfront'⟩

/-- **A line of blanks alone behind a line break adds its own tokens there**, and moves what stands behind it; nothing
else changes.  A text that is refused is refused for the same reason. -/
theorem tokenize_insert {text blank : String} {run ending : List Char} (hblank : blank.toList = run ++ ending)
    (hrun : ∀ c ∈ run, Text.isBlankChar c = true) (hending : ending = ['\n'] ∨ ending = ['\r', '\n']) (unit : Nat) :
    let limit := Cursor.behind front.toList
    let d : Shift := ⟨blank.length, 1⟩
    (∀ f, tokenize (front ++ text) v policy unit = .error f →
      tokenize (front ++ blank ++ text) v policy unit = .error (f.shiftedFrom limit d)) ∧
    ∀ ts, tokenize (front ++ text) v policy unit = .ok ts → ∃ before newline after, ts = before ++ newline :: after ∧
      newline.type = .name "NL" ∧ newline.level = none ∧ newline.stop = limit.place ∧
      tokenize (front ++ blank ++ text) v policy unit =
        .ok (before.map (Token.shiftedFrom limit d) ++ newline :: (v.blankLine policy limit run ending ++
          after.map (Token.shiftedFrom limit d))) := by
  intro limit d
  let cfg := wordConfig policy unit
  have hlist : (front ++ text).toList = front.toList ++ text.toList := String.toList_append
  -- refusals move with the tokens, on whichever side these stand
  have hmoved {ts : List Token} {failure : Option Fault}
      (h : v.scanner.scanFrom .start (front ++ text).toList = Source.ofTokensUntil ts failure) :=
    (relocates_shiftedFrom cfg.kinds limit d).layout_map (Fault.shiftedFrom limit d) failure ts (fun t ht length unit => by
      obtain ⟨read, left, hread, -, hstart⟩ := (Scanner.at_of_scanFrom [] h).1 t ht
      rw [hlist] at hread
      exact Fault.shiftedFrom_indent (Cursor.precedes_or_follows hfront hread) hstart length unit) unit
  rcases scan_insert hfront v hblank text hrun hending with
    ⟨ts, f, hfirst, hboth, hkept, hstays⟩ | ⟨before, head, ending', more, failure, hends, hending', hfirst, hboth, hkept⟩
  · obtain ⟨-, hfault⟩ := hmoved hfirst
    obtain ⟨g, hg⟩ := Option.ne_none_iff_exists'.1 (fault_layout_ne_none cfg f (segments cfg ts) unit [])
    rw [hkept, Option.map_some, hstays, hg] at hfault
    rw [(tokenize_of_layout hfirst).1 g hg, (tokenize_of_layout hboth).1 g hg]
    refine ⟨fun f' hf' => ?_, fun ts' hts' => by cases hts'⟩
    rw [← Except.error.inj hf']
    exact congrArg Except.error (Option.some.inj hfault)
  · let newline := tokenAt (.name "NL") (.behind head) ending'
    have hnewline : IsPlain (.name "NL") newline := isPlain_tokenAt _ _ (trailingIndent_newline hending')
    have hadded := isPlain_tokenAt "NL" (limit.advance run) (trailingIndent_newline hending)
    have hwhitespace : ∀ t ∈ v.blankTokens limit run, cfg.classify t = .whitespace := fun t ht =>
      classify_eq_whitespace.2 (v.isBlank_blankTokens limit run t ht)
    obtain ⟨htokens, hfault⟩ := hmoved hfirst
    have hmap : (before ++ newline :: more).map (Token.shiftedFrom limit d) =
        before ++ newline :: more.map (Token.shiftedFrom limit d) := by
      rw [List.append_cons, List.map_append, hkept, ← List.append_cons]
    rw [hmap] at htokens hfault
    obtain ⟨hsame, hinserted⟩ := layout_insert (Outline.classify_newline_word hnewline policy unit) hnewline.carried
      (Outline.classify_newline_word hadded policy unit) hadded.carried hwhitespace
      (failure.map (Fault.shiftedFrom limit d)) unit before (more.map (Token.shiftedFrom limit d))
    rw [List.append_assoc, List.singleton_append] at hboth
    obtain ⟨hrefused, hgiven⟩ := tokenize_of_layout hfirst
    obtain ⟨hrefused', hgiven'⟩ := tokenize_of_layout hboth
    cases hf : (layout cfg failure unit [] (segments cfg (before ++ newline :: more))).fault with
    | some f =>
      rw [hf] at hfault
      rw [hrefused f hf, hrefused' _ (hsame.trans hfault)]
      exact ⟨fun f' hf' => by rw [Except.error.inj hf'], fun ts hts => by cases hts⟩
    | none =>
      rw [hf] at hfault
      obtain ⟨given, rest, hfirstTokens, hbothTokens⟩ := hinserted hfault
      rw [hgiven hf, hgiven' (hsame.trans hfault)]
      refine ⟨fun f' hf' => (by cases hf'), fun ts hts => ?_⟩
      obtain rfl := Except.ok.inj hts
      -- what was moved to where the line break stands is the line break
      obtain ⟨given', rest', hsplit, rfl, hrest⟩ := List.map_eq_append_iff.1 (htokens.symm.trans hfirstTokens)
      obtain ⟨t, after, rfl, ht, rfl⟩ := List.map_eq_cons_iff.1 hrest
      have hprecedes : (Cursor.behind head).Precedes limit :=
        Cursor.precedes_behind hfront hends (by rcases hending' with rfl | rfl <;> simp)
      obtain rfl := Token.eq_of_shiftedFrom hprecedes rfl ht
      refine ⟨given', newline, after, hsplit, rfl, rfl, ?_, ?_⟩
      · show ((Cursor.behind head).advance ending').place = limit.place
        rw [Cursor.advance_behind, ← hends]
      · exact congrArg Except.ok (hbothTokens.trans (congrArg (fun added => _ ++ newline :: (added ++ _))
          (v.keptGap_blankTokens policy unit limit run ending)))

end

end Offside
