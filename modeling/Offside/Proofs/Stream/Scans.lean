import Offside.Proofs.Stream.Conservation
/-!
# What a scan lists

A scan behind a line break takes all line breaks and white space that come next, and then one reply more.  It sorts what
it took into blank lines, the white space of the last line and its content, and these, read line by line, are the
tokens taken, in their order (`LineScan.tokens`).  Only the last line is measured: the indentation is a function of the
last line break, of the white space behind it and of the content, and the lines in front have no part in it
(`LineScan.Measures`).

A scan fails only where it is failed: by its source, by a token whose type cannot be looked up, or by a content token
whose column has to be counted with and cannot be (`FailsScan`).
-/
namespace Offside

namespace LineScan

variable {α : Type}

/-- The line break in front of the last line of a scan that begins behind `newline`. -/
def lastBreak (newline : α) (scan : LineScan α) : α :=
  (scan.blankLines.getLast?.map Prod.snd).getD newline

/-- Every token that a scan lists is of the kind of its place. -/
structure Sorts (cfg : Config) (scan : LineScan Token) : Prop where
  breaks : ∀ line ∈ scan.blankLines, cfg.classify line.2 = .newline
  blanks : ∀ line ∈ scan.blankLines, ∀ t ∈ line.1, cfg.classify t = .whitespace
  whitespace : ∀ t ∈ scan.whitespace, cfg.classify t = .whitespace
  content : ∀ t ∈ scan.content, cfg.classify t = .other

/-- The indentation of a scan is that of its last line, and none where that has no content. -/
structure Measures (newline : Token) (scan : LineScan Token) : Prop where
  none : scan.content = none → scan.length = .int 0
  some : ∀ t, scan.content = some t → measure (scan.lastBreak newline) scan.whitespace t = .ok scan.length

theorem tokens_behindBlank (whitespace : List α) (newline : α) (scan : LineScan α) :
    (scan.behindBlank whitespace newline).tokens = whitespace ++ newline :: scan.tokens := by
  simp [tokens, behindBlank]

/-- Behind a blank line the last line break is the one it would be behind that line's own. -/
theorem lastBreak_behindBlank (whitespace : List α) (newline t : α) (scan : LineScan α) :
    (scan.behindBlank whitespace t).lastBreak newline = scan.lastBreak t := by
  unfold lastBreak behindBlank
  rw [List.getLast?_cons]
  cases scan.blankLines.getLast? <;> rfl

section
variable {cfg : Config} {scan : LineScan Token}

theorem Sorts.behindBlank (h : scan.Sorts cfg) {whitespace : List Token} {newline : Token}
    (hw : ∀ t ∈ whitespace, cfg.classify t = .whitespace) (hn : cfg.classify newline = .newline) :
    (scan.behindBlank whitespace newline).Sorts cfg := by
  constructor
  · exact List.forall_mem_cons.2 ⟨hn, h.breaks⟩
  · exact List.forall_mem_cons.2 ⟨hw, h.blanks⟩
  · exact h.whitespace
  · exact h.content

theorem Measures.behindBlank {t : Token} (h : scan.Measures t) (newline : Token) (whitespace : List Token) :
    (scan.behindBlank whitespace t).Measures newline := by
  constructor
  · exact h.none
  · intro u hu
    rw [lastBreak_behindBlank]
    exact h.some u hu

/-- Two scans of the same last line measure the same, whatever lines are in front. -/
theorem Measures.length_eq {newline newline' : Token} {scan' : LineScan Token} (h : scan.Measures newline)
    (h' : scan'.Measures newline') (hbreak : scan'.lastBreak newline' = scan.lastBreak newline)
    (hwhitespace : scan'.whitespace = scan.whitespace) (hcontent : scan'.content = scan.content) :
    scan'.length = scan.length := by
  cases hc : scan.content with
  | none => rw [h.none hc, h'.none (hcontent.trans hc)]
  | some t =>
    have hm := h'.some t (hcontent.trans hc)
    rw [hbreak, hwhitespace, h.some t hc] at hm
    exact (Except.ok.inj hm).symm

end
end LineScan

/-! ## Scans of a source -/

/-- What a scan can fail with, given the reply that ends it: a fault of the source, a token of a type that cannot be
looked up, or content in a column that is no number. -/
inductive FailsScan : Option Reply → Fault → Prop where
  | source {f : Fault} : FailsScan (some (.fault f)) f
  | type {t : Token} {e : KindError} (h : t.type.single = .error e) : FailsScan (some (.token t)) (.kind e)
  | column {t : Token} {e : KindError} (h : t.columnIndent = .error e) : FailsScan (some (.token t)) (.kind e)

section
variable {cfg : Config}

/-- What a scan finds, in a line of which some white space is read: the tokens it lists are the white space read and
those taken from the source, and its content is the token behind them all. -/
structure Finds (cfg : Config) (newline : Token) (whitespace : List Token) (source : Source)
    (scan : LineScan Token) : Prop where
  tokens : scan.tokens = whitespace ++ Source.tokens (source.takeWhile cfg.isGapReply) ++ scan.content.toList
  content : scan.content = (source.dropWhile cfg.isGapReply).head?.bind Reply.token?
  unfailed : ∀ f, (source.dropWhile cfg.isGapReply).head? ≠ some (.fault f)
  sorts : scan.Sorts cfg
  measures : scan.Measures newline

theorem Finds.behindBlank {newline t : Token} {whitespace : List Token} {source : Source} {scan : LineScan Token}
    (h : Finds cfg t [] source scan) (hw : ∀ t ∈ whitespace, cfg.classify t = .whitespace)
    (hc : cfg.classify t = .newline) :
    Finds cfg newline whitespace (.token t :: source) (scan.behindBlank whitespace t) := by
  have hgap : cfg.isGapReply (.token t) = true := isGapReply_of_gap (by rw [hc]; decide)
  constructor
  · rw [LineScan.tokens_behindBlank, h.tokens, List.takeWhile_cons_of_pos hgap]
    simp [Source.tokens, Reply.token?, LineScan.behindBlank]
  · rw [List.dropWhile_cons_of_pos hgap]
    exact h.content
  · rw [List.dropWhile_cons_of_pos hgap]
    exact h.unfailed
  · exact h.sorts.behindBlank hw hc
  · exact h.measures.behindBlank newline whitespace

/-- A scan ends where no token comes, with the white space read and no content. -/
theorem finds_of_end {newline : Token} {whitespace : List Token}
    (hw : ∀ t ∈ whitespace, cfg.classify t = .whitespace) {source : Source}
    (hs : ∀ r ∈ source.head?, r = .gap ∨ r = .done) :
    Finds cfg newline whitespace source ⟨.int 0, [], whitespace, none⟩ := by
  have hcut : source.takeWhile cfg.isGapReply = [] ∧ source.dropWhile cfg.isGapReply = source := by
    cases source with
    | nil => exact ⟨rfl, rfl⟩
    | cons r source => rcases hs r rfl with rfl | rfl <;> exact ⟨rfl, rfl⟩
  refine ⟨?_, ?_, ?_, ⟨List.forall_mem_nil _, List.forall_mem_nil _, hw, fun t ht => by cases ht⟩,
    ⟨fun _ => rfl, fun t ht => by cases ht⟩⟩
  · rw [hcut.1]
    simp [LineScan.tokens, Source.tokens]
  · rw [hcut.2]
    cases hr : source.head? with
    | none => rfl
    | some r => rcases hs r hr with rfl | rfl <;> rfl
  · intro f hf
    rw [hcut.2] at hf
    rcases hs _ hf with h | h <;> cases h

/-- A token that is neither a line break nor white space is the content of its line. -/
theorem finds_of_content {newline t : Token} {whitespace : List Token}
    (hw : ∀ t ∈ whitespace, cfg.classify t = .whitespace) (hc : cfg.classify t = .other) {length : Datum}
    (hm : LineScan.measure newline whitespace t = .ok length) (rest : Source) :
    Finds cfg newline whitespace (.token t :: rest) ⟨length, [], whitespace, some t⟩ := by
  have hgap := isGapReply_of_other hc
  refine ⟨?_, ?_, ?_, ⟨List.forall_mem_nil _, List.forall_mem_nil _, hw, ?_⟩, ⟨?_, ?_⟩⟩
  · rw [List.takeWhile_cons_of_neg hgap]
    simp [LineScan.tokens, Source.tokens]
  · rw [List.dropWhile_cons_of_neg hgap]
    rfl
  · rw [List.dropWhile_cons_of_neg hgap]
    intro f hf
    cases hf
  · rintro u ⟨⟩
    exact hc
  · intro h
    cases h
  · rintro u ⟨⟩
    exact hm

/-- A measure fails only at a column. -/
theorem columnIndent_of_measure {newline t : Token} {whitespace : List Token} {e : KindError}
    (h : LineScan.measure newline whitespace t = .error e) : t.columnIndent = .error e := by
  unfold LineScan.measure at h
  split at h
  · exact h
  · cases h

/-- **A scan finds the window behind it, or is failed at its end.**  The induction follows the scan: a line break puts
the white space read into one more blank line, and white space joins what is read. -/
theorem scanFrom_finds (cfg : Config) (newline : Token) (whitespace : List Token) (source : Source) :
    (∀ t ∈ whitespace, cfg.classify t = .whitespace) →
    (∃ scan ended rest, scanFrom cfg newline whitespace source = .found scan ended rest ∧
      Finds cfg newline whitespace source scan) ∨
    ∃ f rest, scanFrom cfg newline whitespace source = .broken f rest ∧
      FailsScan (source.dropWhile cfg.isGapReply).head? f := by
  fun_induction scanFrom cfg newline whitespace source with
  | case1 => exact fun hw => .inl ⟨_, _, _, rfl, finds_of_end hw fun r hr => by cases hr⟩
  | case2 =>
    intro hw
    refine .inl ⟨_, _, _, rfl, finds_of_end hw ?_⟩
    rintro r ⟨⟩
    exact .inr rfl
  | case3 =>
    intro hw
    refine .inl ⟨_, _, _, rfl, finds_of_end hw ?_⟩
    rintro r ⟨⟩
    exact .inl rfl
  | case4 newline whitespace f rest => exact fun _ => .inr ⟨f, rest, rfl, .source⟩
  | case5 newline whitespace t rest e hk =>
    intro _
    rw [List.dropWhile_cons_of_neg (isGapReply_of_unknown hk)]
    exact .inr ⟨_, rest, rfl, .type (Config.single_of_classOf hk)⟩
  | case6 newline whitespace t rest hk ih =>
    intro hw
    have hc : cfg.classify t = .newline := Config.classify_of_classOf hk
    have hgap : cfg.isGapReply (.token t) = true := isGapReply_of_gap (by rw [hc]; decide)
    rcases ih (List.forall_mem_nil _) with ⟨scan, ended, rest', hscan, hfound⟩ | ⟨f, rest', hscan, hfails⟩
    · rw [hscan]
      exact .inl ⟨_, ended, rest', rfl, hfound.behindBlank hw hc⟩
    · rw [hscan, List.dropWhile_cons_of_pos hgap]
      exact .inr ⟨f, rest', rfl, hfails⟩
  | case7 newline whitespace t rest hk ih =>
    intro hw
    have hc : cfg.classify t = .whitespace := Config.classify_of_classOf hk
    have hgap : cfg.isGapReply (.token t) = true := isGapReply_of_gap (by rw [hc]; decide)
    have hw' : ∀ u ∈ whitespace ++ [t], cfg.classify u = .whitespace :=
      List.forall_mem_append.2 ⟨hw, List.forall_mem_singleton.2 hc⟩
    rw [List.dropWhile_cons_of_pos hgap]
    refine (ih hw').imp_left ?_
    rintro ⟨scan, ended, rest', hscan, hfound⟩
    refine ⟨scan, ended, rest', hscan, ?_, ?_, ?_, hfound.sorts, hfound.measures⟩
    · rw [hfound.tokens, List.takeWhile_cons_of_pos hgap]
      simp [Source.tokens, Reply.token?]
    · rw [List.dropWhile_cons_of_pos hgap]
      exact hfound.content
    · rw [List.dropWhile_cons_of_pos hgap]
      exact hfound.unfailed
  | case8 newline whitespace t rest hk length hm =>
    intro hw
    have hc : cfg.classify t = .other := Config.classify_of_classOf hk
    exact .inl ⟨_, _, _, rfl, finds_of_content hw hc hm rest⟩
  | case9 newline whitespace t rest hk e hm =>
    intro _
    have hc : cfg.classify t = .other := Config.classify_of_classOf hk
    rw [List.dropWhile_cons_of_neg (isGapReply_of_other hc)]
    exact .inr ⟨_, _, rfl, .column (columnIndent_of_measure hm)⟩

end

/-- **A scan takes one window and measures its last line.**  It takes the longest run of line breaks and white space,
and one reply behind it.  Unless that reply fails it, it finds what the window holds: its blank lines, the white space
of the last line and the content, if the reply is a token, list the tokens taken in their order, each in a place for its
kind.  A scan without content measures nothing.  Otherwise the length comes from the last line break, the white space
behind it and the content alone: any other scan that ends in the same line has the same length. -/
theorem scanLine_takes_window (cfg : Config) (newline : Token) (source : Source) :
    let behind := source.dropWhile cfg.isGapReply
    ∃ gap : List Token, source = Source.ofTokens gap ++ behind ∧ (∀ t ∈ gap, cfg.classify t ≠ .other) ∧
      (∀ t, behind.head? = some (.token t) → cfg.classify t = .other) ∧
      (scanLine cfg newline source).rest = behind.drop 1 ∧
      ((∃ f rest, scanLine cfg newline source = .broken f rest ∧ FailsScan behind.head? f) ∨
        ∃ scan ended rest, scanLine cfg newline source = .found scan ended rest ∧
          (∀ f, behind.head? ≠ some (.fault f)) ∧
          scan.tokens = gap ++ scan.content.toList ∧ scan.content = behind.head?.bind Reply.token? ∧
          (∀ line ∈ scan.blankLines,
            cfg.classify line.2 = .newline ∧ ∀ t ∈ line.1, cfg.classify t = .whitespace) ∧
          (∀ t ∈ scan.whitespace, cfg.classify t = .whitespace) ∧ (∀ t ∈ scan.content, cfg.classify t = .other) ∧
          (scan.content = none → scan.length = .int 0) ∧
          (∀ t, scan.content = some t →
            LineScan.measure (scan.lastBreak newline) scan.whitespace t = .ok scan.length) ∧
          ∀ cfg' newline' source' scan' ended' rest', scanLine cfg' newline' source' = .found scan' ended' rest' →
            scan'.lastBreak newline' = scan.lastBreak newline → scan'.whitespace = scan.whitespace →
            scan'.content = scan.content → scan'.length = scan.length) := by
  intro behind
  obtain ⟨hgap, hall⟩ := tokens_takeWhile_isGapReply cfg source
  refine ⟨Source.tokens (source.takeWhile cfg.isGapReply), ?_, fun t ht => ?_, fun t ht => ?_,
    scanFrom_taken newline [] source, ?_⟩
  · rw [hgap]
    exact List.takeWhile_append_dropWhile.symm
  · simpa [Config.isGap] using hall t ht
  · obtain ⟨more, hmore⟩ := List.head?_eq_some_iff.1 ht
    exact other_of_behind hmore
  · rcases scanFrom_finds cfg newline [] source (List.forall_mem_nil _) with
      ⟨scan, ended, rest, hscan, h⟩ | hbroken
    · refine .inr ⟨scan, ended, rest, hscan, h.unfailed, h.tokens, h.content,
        fun line hline => ⟨h.sorts.breaks line hline, h.sorts.blanks line hline⟩, h.sorts.whitespace, h.sorts.content,
        h.measures.none, h.measures.some, ?_⟩
      intro cfg' newline' source' scan' ended' rest' hscan' hbreak hwhitespace hcontent
      rcases scanFrom_finds cfg' newline' [] source' (List.forall_mem_nil _) with
        ⟨scan₂, ended₂, rest₂, hscan₂, h'⟩ | hbroken
      · obtain ⟨rfl, -, -⟩ := ScanResult.found.inj (hscan₂.symm.trans hscan')
        exact h.measures.length_eq h'.measures hbreak hwhitespace hcontent
      · obtain ⟨f, rest₂, hbroken, -⟩ := hbroken
        cases hbroken.symm.trans hscan'
    · exact .inl hbroken

/-- A window with a blank line and a line break that carries a tab, and a word behind it. -/
def blankWindow : Source :=
  [.token (.inColumn "WS" "  " 1), .token (.inColumn "NL" "\r\n\t" 3), .token (.inColumn "WS" " " 2),
    .token (.inColumn "WORD" "a" 3), .token (.inColumn "WORD" "b" 4)]

/-- The blank line and what the first line break carries have no part in the length. -/
theorem scanLine_takes_window_blank :
    let cfg := wordConfig .after 0
    let newline : Token := .inColumn "NL" "\n    " 9
    let inner : Token := .inColumn "NL" "\r\n\t" 3
    (scanLine cfg newline blankWindow).rest = [.token (.inColumn "WORD" "b" 4)] ∧
      ∃ scan ended rest, scanLine cfg newline blankWindow = .found scan ended rest ∧
        LineScan.measure inner [.inColumn "WS" " " 2] (.inColumn "WORD" "a" 3) = .ok scan.length ∧
        ∃ scan' ended' rest', scanLine cfg inner (blankWindow.drop 2) = .found scan' ended' rest' ∧
          scan'.length = scan.length := by
  intro cfg newline inner
  have hscan : scanLine cfg newline blankWindow =
      .found ⟨.int 2, [([.inColumn "WS" "  " 1], inner)], [.inColumn "WS" " " 2], some (.inColumn "WORD" "a" 3)⟩ false
        [.token (.inColumn "WORD" "b" 4)] := by decide +kernel
  have hscan' : scanLine cfg inner (blankWindow.drop 2) =
      .found ⟨.int 2, [], [.inColumn "WS" " " 2], some (.inColumn "WORD" "a" 3)⟩ false
        [.token (.inColumn "WORD" "b" 4)] := by decide +kernel
  obtain ⟨gap, -, -, -, hrest,
    ⟨f, rest, hbroken, -⟩ | ⟨scan, ended, rest, hfound, -, -, -, -, -, -, -, hsome, hsame⟩⟩ :=
    scanLine_takes_window cfg newline blankWindow
  · cases hbroken.symm.trans hscan
  · obtain ⟨rfl, -, -⟩ := ScanResult.found.inj (hscan.symm.trans hfound)
    exact ⟨hrest.trans (by decide +kernel), _, _, _, hfound, hsome _ rfl, _, _, _, hscan',
      hsame cfg inner _ _ _ _ hscan' rfl rfl rfl⟩

end Offside
