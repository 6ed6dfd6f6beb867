import Offside.Proofs.Scanner.Slices
import Offside.Proofs.Stream.Variants
/-!
# The text of a stream

A stream over the words of a text that does not fail gives all that its scanner sees, but for the blanks that lines
begin with if white space is skipped (`unmarked_layout`); and its markers say nothing.  So what the tokens of a text say
is the text, or the text moved to the left, or the text without blanks (`tokenize_keeps_text`).
-/
namespace Offside

namespace Text

/-- A text whose lines have lost the blanks that they begin with, all but the first line. -/
def outdent (cs : List Char) : List Char :=
  match cs.splitOn '\n' with
  | [] => []
  | first :: lines => ['\n'].intercalate (first :: lines.map (List.dropWhile isBlankChar))

/-- The same for the rest of a text, where the flag says that a line break was read and no more than blanks since. -/
def outdentFrom : Bool → List Char → List Char
  | _, [] => []
  | fresh, c :: cs =>
    if c = '\n' then c :: outdentFrom true cs
    else if fresh && isBlankChar c then outdentFrom true cs
    else c :: outdentFrom false cs

theorem outdentFrom_newline (fresh : Bool) (cs : List Char) :
    outdentFrom fresh ('\n' :: cs) = '\n' :: outdentFrom true cs := by
  rw [outdentFrom, if_pos rfl]

theorem outdentFrom_blank {c : Char} (hc : isBlankChar c = true) (cs : List Char) :
    outdentFrom true (c :: cs) = outdentFrom true cs := by
  rw [outdentFrom, if_neg (ne_newline_of_blank hc), hc, Bool.and_self, if_pos rfl]

theorem outdentFrom_kept {c : Char} (hn : c ≠ '\n') (fresh : Bool) (hc : fresh = true → isBlankChar c = false)
    (cs : List Char) : outdentFrom fresh (c :: cs) = c :: outdentFrom false cs := by
  have hlost : (fresh && isBlankChar c) = false := by
    cases fresh with
    | false => rfl
    | true => exact hc rfl
  rw [outdentFrom, if_neg hn, hlost, if_neg Bool.false_ne_true]

theorem outdentFrom_run : ∀ {run : List Char}, '\n' ∉ run → ∀ cs : List Char,
    outdentFrom false (run ++ cs) = run ++ outdentFrom false cs
  | [], _, _ => rfl
  | c :: run, h, cs => by
    rw [List.mem_cons, not_or] at h
    rw [List.cons_append, outdentFrom_kept (Ne.symm h.1) false nofun, outdentFrom_run h.2]
    rfl

theorem outdentFrom_blanks : ∀ {run : List Char}, (∀ c ∈ run, isBlankChar c = true) → ∀ cs : List Char,
    outdentFrom true (run ++ cs) = outdentFrom true cs
  | [], _, _ => rfl
  | c :: run, h, cs => by
    obtain ⟨hc, hrun⟩ := List.forall_mem_cons.1 h
    rw [List.cons_append, outdentFrom_blank hc, outdentFrom_blanks hrun]

theorem outdentFrom_word {c : Char} {more : List Char} (hc : isBlankChar c = false) (hline : '\n' ∉ c :: more)
    (fresh : Bool) (cs : List Char) : outdentFrom fresh (c :: more ++ cs) = c :: more ++ outdentFrom false cs := by
  rw [List.mem_cons, not_or] at hline
  rw [List.cons_append, outdentFrom_kept (Ne.symm hline.1) fresh (fun _ => hc), outdentFrom_run hline.2]
  rfl

section
variable {tail : List Char} (htail : ∀ c ∈ tail.head?, c = '\n') {line : List Char} (hline : '\n' ∉ line)
include htail

theorem outdentFrom_tail (fresh : Bool) : outdentFrom fresh tail = outdentFrom true tail := by
  cases tail with
  | nil => rfl
  | cons c tail => rw [htail c rfl, outdentFrom_newline, outdentFrom_newline]

include hline

theorem outdentFrom_line : outdentFrom false (line ++ tail) = line ++ outdentFrom true tail := by
  rw [outdentFrom_run hline, outdentFrom_tail htail]

theorem outdentFrom_fresh_line :
    outdentFrom true (line ++ tail) = line.dropWhile isBlankChar ++ outdentFrom true tail := by
  have hsplit := List.takeWhile_append_dropWhile (p := isBlankChar) (l := line)
  conv_lhs => rw [← hsplit, List.append_assoc, outdentFrom_blanks fun c hc => List.mem_takeWhile_imp hc]
  have hfront := head_dropWhile isBlankChar line
  have hrest : '\n' ∉ line.dropWhile isBlankChar := fun h => hline ((List.dropWhile_sublist _).subset h)
  cases hd : line.dropWhile isBlankChar with
  | nil => rfl
  | cons c more =>
    rw [hd] at hfront hrest
    rw [outdentFrom_word (hfront c rfl) hrest, outdentFrom_tail htail]

end

theorem outdentFrom_lines (lines : List (List Char)) : ∀ cs : List Char, cs.splitOn '\n' = lines →
    outdentFrom true cs = ['\n'].intercalate (lines.map (List.dropWhile isBlankChar)) := by
  induction lines with
  | nil => exact fun cs h => absurd h (List.splitOn_ne_nil _ _)
  | cons first lines ih =>
    intro cs h
    by_cases hcs : '\n' ∈ cs
    · obtain ⟨line, more, rfl, hline⟩ := List.eq_append_cons_of_mem hcs
      rw [List.splitOn_append_cons_self_of_not_mem hline] at h
      obtain ⟨rfl, hmore⟩ := List.cons.inj h
      have hne : lines.map (List.dropWhile isBlankChar) ≠ [] := by
        rw [← hmore]
        simp [List.splitOn_ne_nil]
      rw [outdentFrom_fresh_line (by simp) hline, outdentFrom_newline, ih more hmore, List.map_cons,
        List.intercalate_cons_of_ne_nil hne, List.append_assoc]
      rfl
    · rw [List.splitOn_eq_singleton hcs] at h
      obtain ⟨rfl, rfl⟩ := List.cons.inj h
      have hend : ∀ c ∈ ([] : List Char).head?, c = '\n' := by simp
      have hline := outdentFrom_fresh_line hend hcs
      rw [List.map_cons, List.map_nil, List.intercalate_singleton]
      rwa [List.append_nil, outdentFrom, List.append_nil] at hline

theorem outdentFrom_eq (cs : List Char) : outdentFrom false cs = outdent cs := by
  unfold outdent
  by_cases hcs : '\n' ∈ cs
  · obtain ⟨line, more, rfl, hline⟩ := List.eq_append_cons_of_mem hcs
    have hne : (more.splitOn '\n').map (List.dropWhile isBlankChar) ≠ [] := by simp [List.splitOn_ne_nil]
    rw [List.splitOn_append_cons_self_of_not_mem hline, outdentFrom_line (by simp) hline, outdentFrom_newline,
      outdentFrom_lines _ more rfl]
    dsimp only
    rw [List.intercalate_cons_of_ne_nil hne, List.append_assoc]
    rfl
  · have hline := outdentFrom_run hcs []
    rw [List.splitOn_eq_singleton hcs]
    dsimp only
    rw [List.map_nil, List.intercalate_singleton]
    rwa [List.append_nil, outdentFrom, List.append_nil] at hline

end Text

/-! ## What a layout keeps -/

/-- Tokens without the white space that lines begin with, where the flag says that a line break was read and no more
than white space since. -/
def outdented (cfg : Config) : Bool → List Token → List Token
  | _, [] => []
  | fresh, t :: ts =>
    match cfg.classify t with
    | .newline => t :: outdented cfg true ts
    | .whitespace => if fresh then outdented cfg true ts else t :: outdented cfg false ts
    | .other => t :: outdented cfg false ts

theorem outdented_fresh (cfg : Config) : ∀ ts : List Token, outdented cfg true ts =
    (ts.takeWhile cfg.isGap).filter (fun t => !cfg.isWhitespace t) ++ (ts.dropWhile cfg.isGap).head?.toList ++
      outdented cfg false (ts.dropWhile cfg.isGap).tail
  | [] => rfl
  | t :: ts => by
    have ih := outdented_fresh cfg ts
    cases hc : cfg.classify t with
    | newline => simpa [outdented, hc, Config.isGap, Config.isWhitespace, List.dropWhile_cons] using ih
    | whitespace => simpa [outdented, hc, Config.isGap, Config.isWhitespace, List.dropWhile_cons] using ih
    | other => simp [outdented, hc, Config.isGap]

theorem outdented_of_no_whitespace (cfg : Config) : ∀ {ts : List Token}, (∀ t ∈ ts, cfg.isWhitespace t = false) →
    ∀ fresh, outdented cfg fresh ts = ts
  | [], _, _ => by rw [outdented]
  | t :: ts, h, fresh => by
    obtain ⟨ht, hts⟩ := List.forall_mem_cons.1 h
    cases hc : cfg.classify t with
    | whitespace => simp [Config.isWhitespace, hc] at ht
    | newline => simp only [outdented, hc, outdented_of_no_whitespace cfg hts]
    | other => simp only [outdented, hc, outdented_of_no_whitespace cfg hts]

theorem outdented_sublist (cfg : Config) : ∀ (fresh : Bool) (ts : List Token), (outdented cfg fresh ts).Sublist ts
  | _, [] => by rw [outdented]
  | fresh, t :: ts => by
    unfold outdented
    split
    · exact (outdented_sublist cfg true ts).cons_cons t
    · split
      · exact (outdented_sublist cfg true ts).cons t
      · exact (outdented_sublist cfg false ts).cons_cons t
    · exact (outdented_sublist cfg false ts).cons_cons t

/-- The tokens that a stream passes on, of those that its source has. -/
def Config.passed (cfg : Config) (ts : List Token) : List Token :=
  match cfg.policy with
  | .skip => outdented cfg false ts
  | _ => ts

theorem unmarked_written {cfg : Config} {w : Window} (hw : ∀ t ∈ w.tokens, t.isMarker = false) (unit : Nat)
    {opened : List Token} (hopened : ∀ m ∈ opened, m.isMarker = true) :
    (w.written cfg unit opened).filter (fun t => !t.isMarker) =
      match cfg.policy with
      | .skip => w.newline :: w.gap.filter (fun t => !cfg.isWhitespace t) ++ w.content.toList
      | _ => w.tokens := by
  have hsplit : w.gap = w.blank cfg ++ w.indent cfg := (List.rdropWhile_append_rtakeWhile ..).symm
  have hmarkers : (markersTo cfg.kinds unit (w.length cfg / unit) opened w.content).filter (fun t => !t.isMarker) = [] :=
    List.filter_eq_nil_iff.2 fun m hm => by
      simp [isMarker_markersTo cfg.kinds unit (w.length cfg / unit) w.content hopened m hm]
  have hkept {ts : List Token} (hts : ∀ t ∈ ts, t ∈ w.tokens) : ts.filter (fun t => !t.isMarker) = ts :=
    List.filter_eq_self.2 fun t ht => by simp [hw t (hts t ht)]
  have hnewline : w.newline.isMarker = false := hw w.newline List.mem_cons_self
  have hblank : (w.blank cfg).filter (fun t => !t.isMarker) = w.blank cfg :=
    hkept fun t ht => by simp [Window.tokens, hsplit, ht]
  have hindent : (w.indent cfg).filter (fun t => !t.isMarker) = w.indent cfg :=
    hkept fun t ht => by simp [Window.tokens, hsplit, ht]
  have hcontent : w.content.toList.filter (fun t => !t.isMarker) = w.content.toList :=
    hkept fun t ht => List.mem_cons_of_mem _ (List.mem_append_right _ ht)
  have hbreaks : ((w.blank cfg).filter (fun t => !cfg.isWhitespace t)).filter (fun t => !t.isMarker) =
      w.gap.filter (fun t => !cfg.isWhitespace t) := by
    have hlost : (w.indent cfg).filter (fun t => !cfg.isWhitespace t) = [] :=
      List.filter_eq_nil_iff.2 fun t ht => by
        have : cfg.isWhitespace t = true := List.mem_rtakeWhile_imp ht
        simp [this]
    rw [hkept fun t ht => by simp [Window.tokens, hsplit, (List.mem_filter.1 ht).1], hsplit, List.filter_append, hlost,
      List.append_nil]
  unfold Window.written
  cases cfg.policy with
  | before => simp [hnewline, hblank, hindent, hcontent, hmarkers, hsplit, Window.tokens]
  | after => simp [hnewline, hblank, hindent, hcontent, hmarkers, hsplit, Window.tokens]
  | skip => simp [hnewline, hbreaks, hcontent, hmarkers]

/-- **A layout that does not fail has all tokens in it that are passed on**, in their order. -/
theorem unmarked_layout (cfg : Config) (ts : List Token) : (∀ t ∈ ts, t.isMarker = false) → ∀ (unit : Nat)
    {opened : List Token}, (∀ m ∈ opened, m.isMarker = true) →
      let l := layout cfg none unit opened (segments cfg ts)
      l.fault = none → l.tokens.filter (fun t => !t.isMarker) = cfg.passed ts := by
  -- a window keeps its tokens, or those that are no white space, and its markers are filtered out again
  fun_induction segments cfg ts with
  | case1 =>
    intro _ unit opened hopened l _
    have hclose : l.tokens.filter (fun t => !t.isMarker) = [] := by
      refine List.filter_eq_nil_iff.2 fun m hm => ?_
      obtain ⟨o, ho, rfl⟩ := List.mem_map.1 hm
      have hmarker : (cfg.kinds.closing o).isMarker = true := hopened o ho
      simp [hmarker]
    rw [hclose, Config.passed]
    cases cfg.policy <;> rfl
  | case2 t ts hc ih =>
    intro hts unit opened hopened l hfault
    let w : Window := ⟨t, ts.takeWhile cfg.isGap, (ts.dropWhile cfg.isGap).head?⟩
    let rest := (ts.dropWhile cfg.isGap).tail
    have hsplit : w.tokens ++ rest = t :: ts := Window.tokens_append_rest cfg t ts
    have hw : ∀ u ∈ w.tokens, u.isMarker = false := fun u hu => hts u (hsplit ▸ List.mem_append_left _ hu)
    have hrest : ∀ u ∈ rest, u.isMarker = false := fun u hu => hts u (hsplit ▸ List.mem_append_right _ hu)
    have hl : l = _ := layout_window (w := w) (.inr rfl) unit opened (segments cfg rest)
    dsimp only at hl
    by_cases hd : w.length cfg % fixedBy unit (w.length cfg) = 0
    · rw [if_pos hd] at hl
      rw [hl] at hfault ⊢
      have hopened' : ∀ m ∈ w.openedBehind cfg (fixedBy unit (w.length cfg)) opened, m.isMarker = true :=
        isMarker_openedAt cfg.kinds _ _ w.content hopened
      have ih := ih hrest (fixedBy unit (w.length cfg)) hopened' hfault
      rw [Layout.behind, List.filter_append, ih, unmarked_written hw _ hopened, ← hsplit]
      unfold Config.passed
      cases cfg.policy with
      | before => rfl
      | after => rfl
      | skip =>
        dsimp only
        rw [hsplit, outdented, hc, outdented_fresh]
        simp [w]
    · rw [if_neg hd] at hl
      rw [hl] at hfault
      cases hfault
  | case3 t ts hc ih =>
    intro hts unit opened hopened l hfault
    obtain ⟨ht, hts⟩ := List.forall_mem_cons.1 hts
    have ih := ih hts unit hopened hfault
    have hl : l = (layout cfg none unit opened (segments cfg ts)).behind [t] := rfl
    rw [hl, Layout.behind, List.filter_append, ih, List.filter_cons_of_pos (by simp [ht])]
    unfold Config.passed
    cases cfg.policy with
    | before => rfl
    | after => rfl
    | skip =>
      dsimp only
      cases hclass : cfg.classify t with
      | newline => exact absurd hclass hc
      | whitespace => simp [outdented, hclass]
      | other => simp [outdented, hclass]

theorem passed_of_no_whitespace {cfg : Config} {ts : List Token} (h : ∀ t ∈ ts, cfg.isWhitespace t = false) :
    cfg.passed ts = ts := by
  unfold Config.passed
  split
  · exact outdented_of_no_whitespace cfg h false
  · rfl

theorem passed_sublist (cfg : Config) (ts : List Token) : (cfg.passed ts).Sublist ts := by
  unfold Config.passed
  split
  · exact outdented_sublist cfg false ts
  · exact List.Sublist.refl ts

/-! ## The tokens of a text -/

variable {policy : Policy} {n : Nat}

/-- Without the tokens of blanks that lines begin with, tokens side by side say what lines moved to the left do. -/
theorem Tiled.charsOf_outdented {pos : Cursor} {ts : List Token} (h : Tiled pos ts) : ∀ fresh : Bool,
    charsOf (outdented (wordConfig policy n) fresh ts) = Text.outdentFrom fresh (charsOf ts) := by
  induction h with
  | nil => exact fun _ => rfl
  | @cons pos type text ts hpiece _ ih =>
    intro fresh
    have hword (h : ∀ c ∈ text, Scanner.isWordChar c = true) : '\n' ∉ text := fun hn => Bool.false_ne_true (h '\n' hn)
    rw [charsOf_tokenAt]
    cases hpiece with
    | word hne hchars =>
      have hclass : (wordConfig policy n).classify (tokenAt (.name "WORD") pos text) = .other := rfl
      obtain ⟨c, more, rfl⟩ := List.exists_cons_of_ne_nil hne
      have hc : Text.isBlankChar c = false := Scanner.not_blank_of_isWordChar (hchars c List.mem_cons_self)
      simp only [outdented, hclass]
      rw [charsOf_tokenAt, ih, Text.outdentFrom_word hc (hword hchars)]
    | blanks _ hblank =>
      have hclass : (wordConfig policy n).classify (tokenAt (.name "WS") pos text) = .whitespace := rfl
      have hline : '\n' ∉ text := fun hn => Bool.false_ne_true (hblank '\n' hn)
      simp only [outdented, hclass]
      cases fresh with
      | true => rw [if_pos rfl, ih, Text.outdentFrom_blanks hblank]
      | false => rw [if_neg Bool.false_ne_true, charsOf_tokenAt, ih, Text.outdentFrom_run hline]
    | newline htext =>
      have hclass : (wordConfig policy n).classify (tokenAt (.name "NL") pos text) = .newline := rfl
      simp only [outdented, hclass]
      rw [charsOf_tokenAt, ih]
      rcases htext with rfl | rfl
      · exact (Text.outdentFrom_newline fresh _).symm
      · have hreturn : Text.outdentFrom fresh ('\r' :: '\n' :: charsOf ts) = '\r' :: Text.outdentFrom false ('\n' :: charsOf ts) :=
          Text.outdentFrom_kept (by decide) fresh (fun _ => rfl) _
        exact (hreturn.trans (congrArg _ (Text.outdentFrom_newline false _))).symm

/-- A stream that does not fail gives the tokens that are passed on, and beside them markers, which say nothing. -/
theorem passed_of_tokenize {text : String} {variant : Variant} {ts us : List Token} {failure : Option Fault}
    (hscan : variant.scanner.scanFrom .start text.toList = Source.ofTokensUntil us failure)
    (h : tokenize text variant policy n = .ok ts) :
    let passed := (wordConfig policy n).passed us
    failure = none ∧ ts.filter (fun t => !t.isMarker) = passed ∧ charsOf ts = charsOf passed := by
  intro passed
  let cfg := wordConfig policy n
  let l := layout cfg failure n [] (segments cfg us)
  have hus := Scanner.isScanned_of_scanFrom hscan
  have hnone : ∀ m ∈ ([] : List Token), m.isMarker = true := by simp
  obtain ⟨hl, rfl⟩ : l.fault = none ∧ ts = l.tokens := layout_of_tokenize hscan h
  cases failure with
  | some f => exact absurd hl (fault_layout_ne_none cfg f _ n [])
  | none =>
    have hunmarked : l.tokens.filter (fun t => !t.isMarker) = passed :=
      unmarked_layout cfg us (fun t ht => (hus t ht).unmarked) n hnone hl
    have hmarks : l.marks.markers = (marks cfg.kinds none n [] (landings cfg (segments cfg us))).markers :=
      congrArg Marks.markers (marks_layout cfg none (unmarked_segments cfg hus) n hnone)
    have hsilent : ∀ t ∈ l.tokens, (!t.isMarker) = false → t.value = "" := by
      intro t ht hmarker
      have ht : t ∈ l.marks.markers := List.mem_filter.2 ⟨ht, by simpa using hmarker⟩
      rw [hmarks] at ht
      exact forall_marks (p := fun m => m.value = "") (fun _ h => h) (fun _ _ _ => rfl) none _ n (by simp) t ht
    refine ⟨rfl, hunmarked, ?_⟩
    rw [← hunmarked, charsOf_filter hsilent]

/-- What a scanner that keeps blanks sees is passed on whole, or moved to the left. -/
theorem passed_of_tiled {cs : List Char} {ts : List Token} (h : Tiled .start ts) (hchars : charsOf ts = cs) :
    let passed := (wordConfig policy n).passed ts
    charsOf passed = (if policy = .skip then Text.outdent cs else cs) ∧ Slices cs 0 passed := by
  intro passed
  have hslices : Slices (charsOf ts) 0 ts := h.slices [] rfl
  rw [hchars] at hslices
  refine ⟨?_, hslices.sublist (passed_sublist _ ts)⟩
  subst hchars
  cases policy with
  | before => exact (if_neg nofun).symm
  | after => exact (if_neg nofun).symm
  | skip =>
    rw [if_pos rfl, ← Text.outdentFrom_eq]
    exact h.charsOf_outdented false

/-- **No text is lost.**  Put together, the tokens of a text are the text; if white space is skipped, they are the text
with its lines moved to the left, all but the first one; and in the variant without blanks they are the text without its
blanks.  Markers say nothing, and the other tokens are slices of the text, each behind the one before it. -/
theorem tokenize_keeps_text {text : String} {variant : Variant} {policy : Policy} {unit : Nat} {ts : List Token}
    (h : tokenize text variant policy unit = .ok ts) :
    let said := (String.join (ts.map Token.value)).toList
    (variant ≠ .ignore → policy ≠ .skip → said = text.toList) ∧
      (variant ≠ .ignore → policy = .skip → said = Text.outdent text.toList) ∧
      (variant = .ignore → said = text.toList.filter (fun c => !Text.isBlankChar c)) ∧
      Slices text.toList 0 (ts.filter (fun t => !t.isMarker)) := by
  intro said
  have hsaid : said = charsOf ts := by
    rw [charsOf, ← List.flatMap_map]
    exact String.toList_join
  obtain ⟨us, failure, hs⟩ := scan_variants (pieces Scanner.isWordChar text.toList) .start
  rw [hsaid]
  have hkept {vs : List Token} (hvs : Tiled .start vs) (hkeep : variant.scanner.keepBlanks = true)
      (hscan : variant.scanner.scanFrom .start text.toList = Source.ofTokensUntil vs failure) :
      charsOf ts = (if policy = .skip then Text.outdent text.toList else text.toList) ∧
        Slices text.toList 0 (ts.filter (fun t => !t.isMarker)) := by
    obtain ⟨rfl, hunmarked, hchars⟩ := passed_of_tokenize hscan h
    rw [hunmarked, hchars]
    exact passed_of_tiled hvs (Scanner.charsOf_scanFrom hkeep .start text.toList vs hscan)
  cases variant with
  | spaces =>
    obtain ⟨hchars, hslices⟩ := hkept hs.tiled rfl hs.spaces
    exact ⟨fun _ hp => hchars.trans (if_neg hp), fun _ hp => hchars.trans (if_pos hp), nofun, hslices⟩
  | space =>
    obtain ⟨hchars, hslices⟩ := hkept hs.merged rfl hs.space
    exact ⟨fun _ hp => hchars.trans (if_neg hp), fun _ hp => hchars.trans (if_pos hp), nofun, hslices⟩
  | ignore =>
    have hsub : (dropBlanks us).Sublist us := List.filter_sublist
    obtain ⟨rfl, hunmarked, hchars⟩ := passed_of_tokenize hs.ignore h
    have hall : charsOf us = text.toList := Scanner.charsOf_scanFrom rfl .start text.toList us hs.spaces
    have hslices : Slices (charsOf us) 0 us := hs.tiled.slices [] rfl
    rw [hall] at hslices
    rw [hunmarked, hchars, passed_of_no_whitespace (isWhitespace_dropBlanks us), hs.tiled.charsOf_dropBlanks, hall]
    exact ⟨fun hv => absurd rfl hv, fun hv => absurd rfl hv, fun _ => rfl, hslices.sublist hsub⟩

/-- A text with all three kinds of blanks, both line breaks, a blank line, and blanks at both ends, whose lines are moved
to the left. -/
theorem tokenize_keeps_text_skipped :
    ∃ ts, tokenize " a\t\n  \t\r\n    b c\n\x0c \r\n" .spaces .skip 4 = .ok ts ∧
      (String.join (ts.map Token.value)).toList = " a\t\n\r\nb c\n\r\n".toList ∧
      Slices " a\t\n  \t\r\n    b c\n\x0c \r\n".toList 0 (ts.filter (fun t => !t.isMarker)) := by
  let text := " a\t\n  \t\r\n    b c\n\x0c \r\n"
  let us := (Variant.spaces.scanner.scan text).filterMap Reply.token?
  have hscan : Variant.spaces.scanner.scan text = Source.ofTokensUntil us none := by decide +kernel
  have hfault : (layout (wordConfig .skip 4) none 4 [] (segments (wordConfig .skip 4) us)).fault = none := by
    decide +kernel
  have hok := (tokenize_of_layout hscan).2 hfault
  obtain ⟨-, hskipped, -, hslices⟩ := tokenize_keeps_text hok
  exact ⟨_, hok, (hskipped nofun rfl).trans (by decide +kernel), hslices⟩

end Offside
