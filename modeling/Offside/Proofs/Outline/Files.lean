import Offside.Proofs.Outline.Joins
import Offside.Proofs.Text.Utf8
/-!
# Outlines of files

A file is read with a line feed for each line break.  That changes the text, and with it the offsets of everything in
it, but not its lines, for the carriage return of a line break does not count for the line in front of it
(`outlineOf_unified`), nor the lines and columns of its tokens (`tokenize_unified`).  So an outline is read from a file
as from the text that the file holds (`file_as_text`).
-/
namespace Offside

/-! ## Texts with line feeds alone -/

namespace Text

variable {s : List Char}

theorem unifyBreaks_cons {c : Char} (h : c ≠ '\r') (s : List Char) : unifyBreaks (c :: s) = c :: unifyBreaks s := by
  rw [unifyBreaks, beq_false_of_ne h, if_neg Bool.false_ne_true]
  rintro _ rfl
  exact absurd rfl h

theorem unifyBreaks_append (h : '\r' ∉ s) (t : List Char) : unifyBreaks (s ++ t) = s ++ unifyBreaks t := by
  induction s with
  | nil => rfl
  | cons c s ih =>
    rw [List.mem_cons, not_or] at h
    rw [List.cons_append, unifyBreaks_cons (Ne.symm h.1), ih h.2, List.cons_append]

theorem unifyBreaks_break (h : s = ['\n'] ∨ s = ['\r', '\n']) (t : List Char) :
    unifyBreaks (s ++ t) = '\n' :: unifyBreaks t := by
  rcases h with rfl | rfl <;> rfl

/-- What begins with no character of some kind still does not, if a line feed is not of the kind. -/
theorem head_unifyBreaks {p : Char → Bool} (hp : p '\n' = false) (h : ∀ c ∈ s.head?, p c = false) :
    ∀ c ∈ (unifyBreaks s).head?, p c = false := by
  fun_cases unifyBreaks s with
  | case1 => exact nofun
  | case2 rest =>
    rintro c ⟨⟩
    exact hp
  | case3 c rest _ =>
    rintro d ⟨⟩
    split
    · exact hp
    · exact h c rfl

end Text

namespace Outline

/-! ## Lines -/

/-- The lines of a text are left as they are but for the carriage returns of their line breaks. -/
theorem splitOn_unifyBreaks {cs : List Char} (h : Text.hasStray cs = false) : (Text.unifyBreaks cs).splitOn '\n' =
    (cs.splitOn '\n').map (List.rdropWhile (· == '\r')) := by
  have hfeed (s : List Char) : ('\n' :: s).splitOn '\n' = [] :: s.splitOn '\n' :=
    List.splitOn_append_cons_self_of_not_mem List.not_mem_nil s
  fun_induction Text.unifyBreaks cs with
  | case1 => rfl
  | case2 rest ih =>
    have hline : ('\r' :: '\n' :: rest).splitOn '\n' = ['\r'] :: rest.splitOn '\n' :=
      List.splitOn_append_cons_self_of_not_mem (show '\n' ∉ ['\r'] by decide) rest
    rw [hline, hfeed, ih h]
    rfl
  | case3 c rest hnext ih =>
    rw [Text.hasStray, Bool.or_eq_false_iff] at h
    obtain ⟨hfirst, hrest⟩ := h
    have hc : c ≠ '\r' := by
      rintro rfl
      have hhead : rest.head? = some '\n' := by simpa using hfirst
      obtain ⟨more, rfl⟩ := List.head?_eq_some_iff.1 hhead
      exact hnext more rfl rfl
    have hkept : (c == '\r') = false := beq_false_of_ne hc
    rw [hkept, if_neg Bool.false_ne_true]
    by_cases hn : c = '\n'
    · subst hn
      rw [hfeed, hfeed, ih hrest]
      rfl
    · obtain ⟨line, lines, hlines⟩ := List.exists_cons_of_ne_nil (List.splitOn_ne_nil '\n' rest)
      have hn : (c == '\n') = false := beq_false_of_ne hn
      rw [List.splitOn_cons_eq_if_modifyHead, List.splitOn_cons_eq_if_modifyHead, hn, if_neg Bool.false_ne_true,
        if_neg Bool.false_ne_true, ih hrest, hlines]
      exact congrArg (· :: lines.map _) (rdropWhile_append_cons (p := (· == '\r')) hkept [] line).symm

namespace Line

variable (l : Line)

/-- A line without the carriage return of its line break. -/
def unified : Line :=
  { l with chars := l.chars.rdropWhile (· == '\r') }

theorem chars_unified : l.chars = l.unified.chars ++ l.chars.rtakeWhile (· == '\r') :=
  (List.rdropWhile_append_rtakeWhile ..).symm

theorem eq_return {c : Char} (h : c ∈ l.chars.rtakeWhile (· == '\r')) : c = '\r' := by
  simpa using List.mem_rtakeWhile_imp h

theorem isContent_unified : l.unified.isContent = l.isContent := by
  have hreturns : (l.chars.rtakeWhile (· == '\r')).any (fun c => !Text.isBlankChar c && c != '\r') = false := by
    rw [List.any_eq_false]
    intro c hc
    rw [l.eq_return hc]
    decide
  rw [isContent, isContent, l.chars_unified, List.any_append, hreturns, Bool.or_false]

theorem head_returns : ∀ c ∈ (l.chars.rtakeWhile (· == '\r')).head?, Text.isBlankChar c = false := by
  intro c hc
  rw [l.eq_return (List.mem_of_mem_head? hc)]
  rfl

theorem indentation_unified : l.unified.indentation = l.indentation := by
  have hleading : l.unified.leading = l.leading := by
    rw [leading, leading, l.chars_unified, takeWhile_append l.head_returns]
  rw [indentation, indentation, hleading]
  rfl

theorem entry_unified : l.unified.entry = l.entry := by
  have hspace : ∀ c ∈ l.chars.rtakeWhile (· == '\r'), Text.isSpace c = true := by
    intro c hc
    rw [l.eq_return hc]
    decide
  have htext : Text.stripRight (l.chars.dropWhile Text.isBlankChar) =
      Text.stripRight (l.unified.chars.dropWhile Text.isBlankChar) := by
    rw [l.chars_unified, dropWhile_append l.head_returns, Text.stripRight_append hspace]
  rw [entry, entry, htext]
  rfl

end Line

theorem contentLines_unifyBreaks {cs : List Char} (h : Text.hasStray cs = false) :
    contentLines (Text.unifyBreaks cs) = (contentLines cs).map Line.unified := by
  have hnumbered (lines : List (List Char)) : Line.numbered 1 (lines.map (List.rdropWhile (· == '\r'))) =
      (Line.numbered 1 lines).map Line.unified := by
    rw [Line.numbered, Line.numbered, List.zipIdx_map, List.map_map, List.map_map]
    rfl
  have hcontent : Line.isContent ∘ Line.unified = Line.isContent := funext Line.isContent_unified
  rw [contentLines, contentLines, splitOn_unifyBreaks h, hnumbered, List.filter_map, hcontent]

/-- A text has the same outline with line feeds alone. -/
theorem outlineOf_unified {text : String} (h : Text.hasStray text.toList = false) (unit : Nat) :
    outlineOf (String.ofList (Text.unifyBreaks text.toList)) unit = outlineOf text unit := by
  have halike : ∀ l ∈ contentLines text.toList, l.unified.indentation = l.indentation ∧ l.unified.entry = id l.entry :=
    fun l _ => ⟨l.indentation_unified, l.entry_unified⟩
  unfold outlineOf
  dsimp only
  rw [String.toList_ofList, contentLines_unifyBreaks h, Line.unitOf_map unit halike, Line.depths_map _ halike]
  exact congrArg Forest.ofLevels (List.map_id _)

end Outline

/-! ## Tokens -/

/-- Two cursors in one line and one column. -/
structure Cursor.IsAlongside (pos pos' : Cursor) : Prop where
  line : pos.line = pos'.line
  column : pos.column = pos'.column

theorem Cursor.IsAlongside.step {pos pos' : Cursor} (h : pos.IsAlongside pos') (c : Char) :
    (pos.step c).IsAlongside (pos'.step c) := by
  unfold Cursor.step
  split
  · exact ⟨congrArg (· + 1) h.line, rfl⟩
  · exact ⟨h.line, congrArg (· + 1) h.column⟩

theorem Cursor.IsAlongside.advance : ∀ (s : List Char) {pos pos' : Cursor}, pos.IsAlongside pos' →
    (pos.advance s).IsAlongside (pos'.advance s)
  | [], _, _, h => h
  | c :: s, _, _, h => IsAlongside.advance s (h.step c)

/-- A line break leads to the front of the next line, with a carriage return and without. -/
theorem Cursor.IsAlongside.behind_break {pos pos' : Cursor} (h : pos.IsAlongside pos') {text : List Char}
    (htext : text = ['\n'] ∨ text = ['\r', '\n']) : (pos.advance text).IsAlongside (pos'.advance ['\n']) := by
  rcases htext with rfl | rfl
  · exact h.step '\n'
  · exact ⟨congrArg (· + 1) h.line, rfl⟩

/-- A token without its offsets, and with a line feed for a line break that carries no indentation. -/
def Token.unified (t : Token) : Token :=
  { t with
    value := if t.type = .name "NL" ∧ t.carriedIndent = 0 then "\n" else t.value
    start := { t.start with offset := .null }
    stop := { t.stop with offset := .null } }

theorem Token.value_unified {t : Token} (h : t.type ≠ .name "NL") : t.unified.value = t.value :=
  if_neg fun hn => h hn.1

theorem relocates_unified : Relocates wordKinds Token.unified where
  type _ := rfl
  value t h := Token.value_unified fun hn => h (congrArg TokenType.key hn)
  carried t := by
    show (Text.trailingIndent (if t.type = .name "NL" ∧ t.carriedIndent = 0 then "\n" else t.value).toList).length = _
    split
    · rename_i h
      exact h.2.symm
    · rfl
  column _ := rfl
  opening _ _ _ := rfl
  closing t h := by
    have hvalue := Token.value_unified fun hn => h (congrArg TokenType.key hn)
    exact congrArg (fun value => { wordKinds.closing t.unified with value }) hvalue.symm

theorem unified_tokenAt {pos pos' : Cursor} (h : pos.IsAlongside pos') (type : TokenType) (text : List Char) :
    (tokenAt type pos text).unified = (tokenAt type pos' text).unified := by
  have hstop := h.advance text
  simp only [tokenAt, Token.unified, Cursor.place, h.line, h.column, hstop.line, hstop.column]
  rfl

theorem unified_break {pos pos' : Cursor} (h : pos.IsAlongside pos') {text : List Char}
    (htext : text = ['\n'] ∨ text = ['\r', '\n']) :
    (tokenAt (.name "NL") pos text).unified = (tokenAt (.name "NL") pos' ['\n']).unified := by
  have hstop := h.behind_break htext
  have hfeed (pos : Cursor) {text : List Char} (htext : text = ['\n'] ∨ text = ['\r', '\n']) :
      (tokenAt (.name "NL") pos text).unified = ⟨.name "NL", "\n", ⟨.null, .int pos.line, .int pos.column⟩,
        ⟨.null, .int (pos.advance text).line, .int (pos.advance text).column⟩, none⟩ := by
    have hcarried := (isPlain_tokenAt "NL" pos (trailingIndent_newline htext)).carried
    rw [Token.unified, if_pos ⟨rfl, hcarried⟩]
    rfl
  rw [hfeed pos htext, hfeed pos' (.inl rfl), h.line, h.column, hstop.line, hstop.column]

/-- **A text has the same tokens with line feeds alone**, but for their offsets and for what line breaks say. -/
theorem scan_unified {cs : List Char} (h : Pieces Scanner.isWordChar cs) : Text.hasStray cs = false →
    ∀ pos pos' : Cursor, pos.IsAlongside pos' → ∃ ts ts',
      Variant.ignore.scanner.scanFrom pos cs = Source.ofTokensUntil ts none ∧
      Variant.ignore.scanner.scanFrom pos' (Text.unifyBreaks cs) = Source.ofTokensUntil ts' none ∧
      ts.map Token.unified = ts'.map Token.unified := by
  induction h with
  | nil =>
    intro _ pos pos' _
    refine ⟨[], [], ?_, ?_, rfl⟩
    · rw [Scanner.scanFrom]
      rfl
    · rw [Text.unifyBreaks, Scanner.scanFrom]
      rfl
  | @blanks run rest hne hrun hrest _ ih =>
    intro hstray pos pos' hpos
    have hreturn : '\r' ∉ run := fun h => Bool.false_ne_true (hrun '\r' h)
    rw [Text.hasStray_append hreturn] at hstray
    obtain ⟨ts, ts', hscan, hscan', hsame⟩ := ih hstray _ _ (hpos.advance run)
    refine ⟨ts, ts', ?_, ?_, hsame⟩
    · rw [Scanner.scan_run rfl hne hrun hrest, hscan]
      rfl
    · rw [Text.unifyBreaks_append hreturn, Scanner.scan_run rfl hne hrun (Text.head_unifyBreaks rfl hrest), hscan']
      rfl
  | @newline text rest htext _ ih =>
    intro hstray pos pos' hpos
    rw [hasStray_piece (.newline htext)] at hstray
    obtain ⟨ts, ts', hscan, hscan', hsame⟩ := ih hstray _ _ (hpos.behind_break htext)
    refine ⟨tokenAt (.name "NL") pos text :: ts, tokenAt (.name "NL") pos' ['\n'] :: ts', ?_, ?_, ?_⟩
    · rw [Scanner.scan_newline htext, hscan]
      rfl
    · have hfeed : Variant.ignore.scanner.scanFrom pos' (['\n'] ++ Text.unifyBreaks rest) = _ :=
        Scanner.scan_newline (.inl rfl) pos'
      rw [Text.unifyBreaks_break htext]
      exact hfeed.trans (by rw [hscan']; rfl)
    · rw [List.map_cons, List.map_cons, hsame, unified_break hpos htext]
  | @stray rest hrest =>
    intro hstray
    rw [Text.hasStray, bne_iff_ne.2 hrest] at hstray
    cases hstray
  | @word c more rest hblank hline hmore hrest _ ih =>
    intro hstray pos pos' hpos
    have hword : ∀ d ∈ c :: more, Scanner.isWordChar d = true :=
      List.forall_mem_cons.2 ⟨Scanner.isWordChar_of_not_blank hblank hline, hmore⟩
    have hreturn : '\r' ∉ c :: more := fun h => Bool.false_ne_true (hword '\r' h)
    rw [Text.hasStray_append hreturn] at hstray
    obtain ⟨ts, ts', hscan, hscan', hsame⟩ := ih hstray _ _ (hpos.advance (c :: more))
    refine ⟨tokenAt (.name "WORD") pos (c :: more) :: ts, tokenAt (.name "WORD") pos' (c :: more) :: ts', ?_, ?_, ?_⟩
    · rw [Scanner.scan_word hblank hline hmore hrest, hscan]
      rfl
    · rw [Text.unifyBreaks_append hreturn,
        Scanner.scan_word hblank hline hmore (Text.head_unifyBreaks rfl hrest), hscan']
      rfl
    · rw [List.map_cons, List.map_cons, hsame, unified_tokenAt hpos]

/-- Two tokens that differ in no more than their offsets and, if they are line breaks, in what they say. -/
structure Token.Corresponds (t t' : Token) : Prop where
  type : t.type = t'.type
  line : t.start.line = t'.start.line
  column : t.start.column = t'.start.column
  endLine : t.stop.line = t'.stop.line
  endColumn : t.stop.column = t'.stop.column
  level : t.level = t'.level
  value : t.type ≠ .name "NL" → t.value = t'.value

theorem Token.corresponds_of_unified {t t' : Token} (h : t.unified = t'.unified) : t.Corresponds t' := by
  have hvalue : t.unified.value = t'.unified.value := congrArg Token.value h
  simp only [Token.unified, Token.mk.injEq, Place.mk.injEq, true_and] at h
  obtain ⟨htype, -, ⟨hline, hcolumn⟩, ⟨hendLine, hendColumn⟩, hlevel⟩ := h
  refine ⟨htype, hline, hcolumn, hendLine, hendColumn, hlevel, fun hne => ?_⟩
  rwa [value_unified hne, value_unified fun hn => hne (htype.trans hn)] at hvalue

/-- **A text is cut into tokens as it is with line feeds alone**, or into none in both cases for one reason. -/
theorem tokenize_unified {text : String} (h : Text.hasStray text.toList = false) (policy : Policy) (unit : Nat) :
    let tokenized := tokenize (String.ofList (Text.unifyBreaks text.toList)) .ignore policy unit
    let tokenized' := tokenize text .ignore policy unit
    (∃ f, tokenized = .error f ∧ tokenized' = .error f) ∨
      ∃ ts ts', tokenized = .ok ts ∧ tokenized' = .ok ts' ∧ List.Forall₂ Token.Corresponds ts ts' := by
  intro tokenized tokenized'
  obtain ⟨us', us, hscan', hscan, hsame⟩ := scan_unified (pieces _ text.toList) h .start .start ⟨rfl, rfl⟩
  rw [← String.toList_ofList (l := Text.unifyBreaks text.toList)] at hscan
  let l := layout (wordConfig policy unit) none unit [] (segments (wordConfig policy unit) us)
  let l' := layout (wordConfig policy unit) none unit [] (segments (wordConfig policy unit) us')
  -- the two layouts become one where tokens have no offsets, and no fault looks at these
  obtain ⟨htokens, hfault⟩ : l.tokens.map Token.unified = l'.tokens.map Token.unified ∧ l.fault = l'.fault := by
    have hunified : Relocates (wordConfig policy unit).kinds Token.unified := relocates_unified
    have hl := hunified.layout_map id none us (fun _ _ _ _ => rfl) unit
    have hl' := hunified.layout_map id none us' (fun _ _ _ _ => rfl) unit
    rw [hsame] at hl'
    exact ⟨hl.1.symm.trans hl'.1, Option.map_injective Function.injective_id (hl.2.symm.trans hl'.2)⟩
  obtain ⟨herror, hok⟩ := @tokenize_of_layout policy unit _ _ _ _ hscan
  obtain ⟨herror', hok'⟩ := @tokenize_of_layout policy unit _ _ _ _ hscan'
  cases hf : l.fault with
  | some f => exact .inl ⟨f, herror f hf, herror' f (hfault.symm.trans hf)⟩
  | none =>
    refine .inr ⟨l.tokens, l'.tokens, hok hf, hok' (hfault.symm.trans hf), ?_⟩
    rw [← List.forall₂_eq_eq_eq, List.forall₂_map_left_iff, List.forall₂_map_right_iff] at htokens
    exact htokens.imp fun _ _ => Token.corresponds_of_unified

namespace Outline

/-! ## Files -/

/-- The file at a path is read as its text with line feeds alone. -/
theorem make_file {path : String} {look : String → Found} {text : String}
    (hfile : look path = .file text.toUTF8.data.toList) (unit : Datum) :
    make (.text path) none unit look = ofText (String.ofList (Text.unifyBreaks text.toList)) unit := by
  have htext : textOfFound path (look path) = .ok (String.ofList (Text.unifyBreaks text.toList)) := by
    rw [hfile, textOfFound, textOfBytes, Utf8.read_toUTF8]
  show (textOfFound path (look path) >>= fun text => ofText text unit) = _
  rw [htext]
  rfl

/-- **An outline is read from a file as from the text that the file holds**, if each carriage return in it has a line
feed behind it.  The two fail alike; or they have the same entries, and what is made of these, and the same tokens but
for their offsets and for what line breaks say. -/
theorem file_as_text {text : String} (hstray : Text.hasStray text.toList = false) {path : String}
    {look : String → Found} (hfile : look path = .file text.toUTF8.data.toList) (unit given : Datum)
    (look' : String → Found) :
    let filed := make (.text path) none unit look
    let direct := make given (some text) unit look'
    (∃ e, filed = .error e ∧ direct = .error e) ∨
      ∃ o o' ts ts', filed = .ok o ∧ direct = .ok o' ∧ o.entries = o'.entries ∧ o.depth = o'.depth ∧ o.walk = o'.walk ∧
        (∀ indent, o.toText indent = o'.toText indent) ∧ (∀ indent, o.toTextOf indent = o'.toTextOf indent) ∧
        o.tokens = .ok ts ∧ o'.tokens = .ok ts' ∧ List.Forall₂ Token.Corresponds ts ts' := by
  intro filed direct
  let file := String.ofList (Text.unifyBreaks text.toList)
  have hfiled : filed = ofText file unit := make_file hfile unit
  have hdirect : direct = ofText text unit := rfl
  cases hunit : unitOfDatum unit with
  | error e =>
    refine .inl ⟨.fault (.config e), ?_, ?_⟩
    · rw [hfiled, ofText, unitOf, hunit]
      rfl
    · rw [hdirect, ofText, unitOf, hunit]
      rfl
  | ok n =>
    rw [ofText_eq hunit, parseText_eq _ n .after] at hfiled hdirect
    rcases tokenize_unified hstray .after n with ⟨f, ht, ht'⟩ | ⟨ts, ts', ht, ht', hsame⟩
    · refine .inl ⟨.fault f, ?_, ?_⟩
      · rw [hfiled, ht]
        rfl
      · rw [hdirect, ht']
        rfl
    · let entries := outlineOf text n
      have hentries : outlineOf file n = entries := outlineOf_unified hstray n
      rw [ht, hentries] at hfiled
      rw [ht'] at hdirect
      exact .inr ⟨⟨file, n, entries⟩, ⟨text, n, entries⟩, ts, ts', hfiled, hdirect, rfl, rfl, rfl, fun _ => rfl,
        fun _ => rfl, ht, ht', hsame⟩

/-- A file with both line breaks, a blank line, and blanks in front of carriage returns. -/
theorem file_as_text_mixed :
    let text := "a \r\n  b\t\r\n\n    é\r\n \r\n  d"
    let look (_ : String) : Found := .file text.toUTF8.data.toList
    Text.hasStray text.toList = false ∧
      ∃ o, make (.text "f") none (.int 2) look = .ok o ∧ o.toText "- " = "a\n- b\n- - é\n- d\n" := by
  intro text look
  have hstray : Text.hasStray text.toList = false := by decide +kernel
  have hfits : ∀ l ∈ contentLines text.toList, Line.unitOf 2 (contentLines text.toList) ∣ l.indentation := by
    decide +kernel
  have hdirect : make .null (some text) (.int 2) look = .ok ⟨text, 2, outlineOf text 2⟩ := by
    show ofText text (.int 2) = _
    rw [@ofText_eq (.int 2) 2 rfl, parseText_eq_ok_iff.2 ⟨hstray, hfits, rfl⟩]
    rfl
  rcases @file_as_text text hstray "f" look rfl (.int 2) .null look with
    ⟨e, -, he⟩ | ⟨o, o', -, -, ho, ho', -, -, -, htext, -⟩
  · cases hdirect.symm.trans he
  · obtain rfl := Except.ok.inj (hdirect.symm.trans ho')
    refine ⟨hstray, o, ho, (htext "- ").trans ?_⟩
    decide +kernel

end Outline
end Offside
