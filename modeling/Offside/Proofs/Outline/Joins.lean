import Offside.Proofs.Outline.Agreement
import Offside.Proofs.Stream.Joins
/-!
# Outlines of texts behind one another

The lines of a text that ends with a line break and of what is behind it are those of the one and those of the other,
numbered on (`linesFrom_append`).  So the outline of two texts is that of the first beside that of the second
(`parseText_append`), and a line of blanks alone behind a line break changes line numbers only (`parseText_insert`).
Where the texts are refused, they are refused as the tokenizer refuses them (`parseText_of_tokenize`).
-/
namespace Offside

/-- The roots of two forests in a row. -/
def Forest.beside {α : Type} (f g : Forest α) : Forest α :=
  ofRoots (f.roots ++ g.roots)

/-- Labels whose first is at level zero make a forest beside the one in front of it. -/
theorem Forest.ofLevels_append_of_root {α : Type} {ms : List (Nat × α)} (h : ∀ y ∈ ms.head?, y.1 = 0)
    (ls : List (Nat × α)) : ofLevels (ls ++ ms) = (ofLevels ls).beside (ofLevels ms) := by
  cases ms with
  | nil => rw [List.append_nil, ofLevels, beside, roots, List.append_nil, ofRoots_roots]
  | cons y zs =>
    have hy : y.1 = 0 := h y rfl
    rw [beside, ← roots_ofLevels_append y zs ls fun x _ => hy ▸ Nat.zero_le x.1, ofRoots_roots]

/-- An entry further on. -/
def Entry.shifted (d : Shift) (e : Entry) : Entry :=
  { e with line := e.line.raised d.line }

/-- An entry moved if it stands behind a limit. -/
def Entry.shiftedFrom (limit : Cursor) (d : Shift) (e : Entry) : Entry :=
  if e.line.reaches limit.line = true then e.shifted d else e

/-- A failure with its fault changed, if it has one. -/
def Failure.mapFault (move : Fault → Fault) : Failure → Failure
  | .fault f => .fault (move f)
  | e => e

namespace Outline

/-! ## Lines numbered on -/

/-- The lines of a text that have content, where its first line has a given number. -/
def linesFrom (start : Nat) (cs : List Char) : List Line :=
  (Line.numbered start (cs.splitOn '\n')).filter Line.isContent

namespace Line

/-- A line further on. -/
def raised (further : Nat) (l : Line) : Line :=
  { l with number := l.number + further }

/-- A line further on if its number is at least a limit. -/
def raisedFrom (limit further : Nat) (l : Line) : Line :=
  if limit ≤ l.number then l.raised further else l

theorem entry_raised (d : Shift) (l : Line) : (l.raised d.line).entry = l.entry.shifted d := rfl

theorem entry_raisedFrom (limit : Cursor) (d : Shift) (l : Line) :
    (l.raisedFrom limit.line d.line).entry = l.entry.shiftedFrom limit d := by
  have hreaches : l.entry.line.reaches limit.line = decide (limit.line ≤ l.number) := Datum.reaches_int _ _
  by_cases h : limit.line ≤ l.number
  · rw [raisedFrom, if_pos h, entry_raised, Entry.shiftedFrom, hreaches, decide_eq_true h, if_pos rfl]
  · rw [raisedFrom, if_neg h, Entry.shiftedFrom, hreaches, decide_eq_false h, if_neg Bool.false_ne_true]

theorem indentation_raised {l : Line} (h : 1 < l.number) (further : Nat) :
    (l.raised further).indentation = l.indentation := by
  have hraised : (l.raised further).number ≠ 1 := Nat.ne_of_gt (Nat.lt_of_lt_of_le h (Nat.le_add_right _ _))
  rw [indentation, indentation, if_neg hraised, if_neg (Nat.ne_of_gt h)]
  rfl

theorem numbered_append (start : Nat) (ls ms : List (List Char)) :
    numbered start (ls ++ ms) = numbered start ls ++ numbered (start + ls.length) ms := by
  rw [numbered, List.zipIdx_append, List.map_append]
  rfl

theorem numbered_add (start further : Nat) : ∀ lines : List (List Char),
    numbered (start + further) lines = (numbered start lines).map (raised further)
  | [] => rfl
  | first :: lines => by
    rw [numbered_cons, numbered_cons, List.map_cons, ← numbered_add (start + 1) further lines,
      Nat.add_right_comm start further 1]
    rfl

theorem depths_append (unit : Nat) (ls ms : List Line) : depths unit (ls ++ ms) = depths unit ls ++ depths unit ms :=
  List.map_append

section
variable {ls : List Line} {move : Line → Line} {f : Entry → Entry} (unit : Nat)
  (h : ∀ l ∈ ls, (move l).indentation = l.indentation ∧ (move l).entry = f l.entry)
include h

/-- Lines that are indented alike have one unit. -/
theorem unitOf_map : unitOf unit (ls.map move) = unitOf unit ls := by
  have hindented : (ls.map move).map indentation = ls.map indentation := by
    rw [List.map_map]
    exact List.map_congr_left fun l hl => (h l hl).1
  rw [unitOf, unitOf, hindented]

/-- Lines that are indented alike stand at the same depths. -/
theorem depths_map : depths unit (ls.map move) = (depths unit ls).map (fun x => (x.1, f x.2)) := by
  rw [depths, depths, List.map_map, List.map_map]
  refine List.map_congr_left fun l hl => ?_
  obtain ⟨hindentation, hentry⟩ := h l hl
  simp only [Function.comp_apply, hindentation, hentry]

end

end Line

theorem length_splitOn_newline (cs : List Char) : (cs.splitOn '\n').length = cs.count '\n' + 1 := by
  induction cs with
  | nil => rfl
  | cons c cs ih =>
    rw [List.splitOn_cons_eq_if_modifyHead, List.count_cons]
    split
    · rw [List.length_cons, ih]
    · rw [List.length_modifyHead, ih, Nat.add_zero]

theorem linesFrom_nil (start : Nat) : linesFrom start [] = [] := rfl

theorem linesFrom_add (start further : Nat) (cs : List Char) :
    linesFrom (start + further) cs = (linesFrom start cs).map (Line.raised further) := by
  rw [linesFrom, Line.numbered_add, List.filter_map]
  rfl

theorem number_of_mem_linesFrom {start : Nat} {cs : List Char} {l : Line} (hl : l ∈ linesFrom start cs) :
    start ≤ l.number ∧ l.number ≤ start + cs.count '\n' := by
  obtain ⟨x, hx, rfl⟩ := List.mem_map.1 (List.mem_filter.1 hl).1
  have hlast := List.snd_lt_add_of_mem_zipIdx hx
  rw [length_splitOn_newline] at hlast
  exact ⟨List.le_snd_of_mem_zipIdx hx, Nat.lt_succ_iff.1 hlast⟩

theorem linesFrom_break (start : Nat) (head rest : List Char) :
    linesFrom start (head ++ '\n' :: rest) = linesFrom start head ++ linesFrom (start + head.count '\n' + 1) rest := by
  rw [linesFrom, List.splitOn_append_cons_self, Line.numbered_append, List.filter_append, length_splitOn_newline]
  rfl

section
variable {front : List Char} (hfront : front.getLast? = some '\n')
include hfront

/-- **The lines behind a line break are those of the rest, numbered on.** -/
theorem linesFrom_append (start : Nat) (rest : List Char) :
    linesFrom start (front ++ rest) = linesFrom start front ++ linesFrom (start + front.count '\n') rest := by
  obtain ⟨head, rfl⟩ := List.getLast?_eq_some_iff.1 hfront
  rw [List.append_assoc, List.singleton_append, linesFrom_break, linesFrom_break, linesFrom_nil, List.append_nil,
    List.count_append]
  rfl

/-- Behind its last line break a text has no line with content. -/
theorem number_lt_of_mem_linesFrom {start : Nat} {l : Line} (hl : l ∈ linesFrom start front) :
    l.number < start + front.count '\n' := by
  obtain ⟨head, rfl⟩ := List.getLast?_eq_some_iff.1 hfront
  rw [linesFrom_break, linesFrom_nil, List.append_nil] at hl
  rw [List.count_append]
  exact Nat.lt_succ_of_le (number_of_mem_linesFrom hl).2

theorem contentLines_append (rest : List Char) :
    contentLines (front ++ rest) = contentLines front ++ (contentLines rest).map (Line.raised (front.count '\n')) :=
  (linesFrom_append hfront 1 rest).trans (congrArg _ (linesFrom_add 1 _ _))

end

/-- A line of blanks alone has no content. -/
theorem linesFrom_blankLine {run ending : List Char} (hrun : ∀ c ∈ run, Text.isBlankChar c = true)
    (hending : ending = ['\n'] ∨ ending = ['\r', '\n']) (start : Nat) : linesFrom start (run ++ ending) = [] := by
  have hblank (more : List Char) (hmore : more = [] ∨ more = ['\r']) : linesFrom start (run ++ more ++ ['\n']) = [] := by
    have hbreak : '\n' ∉ run ++ more := fun h => by
      rcases List.mem_append.1 h with h | h
      · exact Text.ne_newline_of_blank (hrun _ h) rfl
      · rcases hmore with rfl | rfl <;> simp at h
    have hnone : Line.isContent ⟨start, run ++ more⟩ = false := by
      refine List.any_eq_false.2 fun c hc => ?_
      rcases List.mem_append.1 hc with h | h
      · simp [hrun c h]
      · rcases hmore with rfl | rfl <;> simp at h
        simp [h]
    rw [linesFrom_break, linesFrom_nil, List.append_nil, linesFrom, List.splitOn_eq_singleton hbreak, Line.numbered_cons,
      List.filter_cons_of_neg (by rw [hnone]; exact Bool.false_ne_true)]
    rfl
  rcases hending with rfl | rfl
  · have h := hblank [] (.inl rfl)
    rwa [List.append_nil] at h
  · have h := hblank ['\r'] (.inr rfl)
    rwa [List.append_assoc] at h

/-- **A line of blanks alone behind a line break raises the numbers of the lines behind it by one.** -/
theorem contentLines_insert {front run ending : List Char} (hfront : front.getLast? = some '\n')
    (hrun : ∀ c ∈ run, Text.isBlankChar c = true) (hending : ending = ['\n'] ∨ ending = ['\r', '\n'])
    (rest : List Char) : contentLines (front ++ (run ++ ending ++ rest)) =
      (contentLines (front ++ rest)).map (Line.raisedFrom (1 + front.count '\n') 1) := by
  let limit := 1 + front.count '\n'
  have hbreak : (run ++ ending).getLast? = some '\n' := by rcases hending with rfl | rfl <;> simp
  have hone : (run ++ ending).count '\n' = 1 := congrArg Shift.line (Shift.of_blankLine hrun hending)
  have hkept : (contentLines front).map (Line.raisedFrom limit 1) = contentLines front := by
    refine (List.map_congr_left fun l hl => ?_).trans (List.map_id _)
    exact if_neg (Nat.not_le.2 (number_lt_of_mem_linesFrom hfront hl))
  have hmoved : (linesFrom limit rest).map (Line.raisedFrom limit 1) = linesFrom (limit + 1) rest := by
    rw [linesFrom_add limit 1]
    exact List.map_congr_left fun l hl => if_pos (number_of_mem_linesFrom hl).1
  have hlines (cs : List Char) : contentLines (front ++ cs) = contentLines front ++ linesFrom limit cs :=
    linesFrom_append hfront 1 cs
  rw [hlines, hlines, List.map_append, hkept, hmoved, linesFrom_append hbreak, linesFrom_blankLine hrun hending, hone,
    List.nil_append]

section
variable {cs : List Char} (hword : ∀ c ∈ cs.head?, Scanner.isWordChar c = true)
include hword

/-- A text that begins with a word has content in its first line, which no blanks begin. -/
theorem contentLines_word : (∀ l ∈ (contentLines cs).head?, l.number = 1) ∧
    ∀ l ∈ contentLines cs, l.number = 1 → l.leading = 0 := by
  cases cs with
  | nil => exact ⟨fun l hl => absurd hl (Option.not_mem_none l), fun l hl => absurd hl List.not_mem_nil⟩
  | cons c rest =>
    obtain ⟨hblank, hr, hn⟩ := Scanner.of_isWordChar (hword c rfl)
    obtain ⟨chars, lines, hlines⟩ := List.exists_cons_of_ne_nil (List.splitOn_ne_nil '\n' rest)
    have hcontent : Line.isContent ⟨1, c :: chars⟩ = true := by simp [Line.isContent, hblank, hr]
    have hfirst : contentLines (c :: rest) = ⟨1, c :: chars⟩ :: (Line.numbered 2 lines).filter Line.isContent := by
      rw [contentLines, List.splitOn_cons_eq_if_modifyHead, if_neg (by simpa using hn), hlines, List.modifyHead_cons,
        Line.numbered_cons, List.filter_cons_of_pos hcontent]
    rw [hfirst]
    refine ⟨fun l hl => (Option.some.inj hl) ▸ rfl, List.forall_mem_cons.2 ⟨fun _ => ?_, fun l hl hnumber => ?_⟩⟩
    · rw [Line.leading, List.takeWhile_cons_of_neg (by rw [hblank]; exact Bool.false_ne_true)]
      rfl
    · have := Line.le_number_of_mem l (List.mem_filter.1 hl).1
      omega

/-- Where a text begins with a word, it does not matter whether its first line is measured. -/
theorem indentation_raised_of_word (further : Nat) :
    ∀ l ∈ contentLines cs, (l.raised further).indentation = l.indentation := by
  intro l hl
  have hpos : 1 ≤ l.number := (number_of_mem_linesFrom hl).1
  rcases Nat.eq_or_lt_of_le hpos with hone | hlater
  · have hleading : (l.raised further).leading = 0 := (contentLines_word hword).2 l hl hone.symm
    rw [Line.indentation, Line.indentation, hleading, if_pos hone.symm, ite_self]
  · exact Line.indentation_raised hlater further

end

/-! ## Outlines -/

/-- The forest of the lines of a text, by their depths. -/
def outlineOf (text : String) (unit : Nat) : Forest Entry :=
  let ls := contentLines text.toList
  Forest.ofLevels (Line.depths (Line.unitOf unit ls) ls)

/-- **A text is refused as the tokenizer refuses it**, and otherwise its outline is the forest of its lines. -/
theorem parseText_eq (text : String) (unit : Nat) (policy : Policy) : parseText text unit =
    ((tokenize text .ignore policy unit).mapError Failure.fault).map (fun _ => outlineOf text unit) := by
  let d := drainText unit text
  obtain ⟨-, hfault, -, r, htakes, hend⟩ := streams_agree text unit policy
  obtain ⟨hfails, hreads⟩ := read_of_takes_any htakes hend
  have hparse : parseText text unit = (read d.tokens d.fault).map (Forest.map Entry.ofToken) := rfl
  rw [tokenize, Drained.toExcept, hfault]
  cases hf : d.fault with
  | some f =>
    rw [hparse, hfails f hf]
    rfl
  | none =>
    obtain ⟨forest, hforest⟩ := hreads hf
    have hok : parseText text unit = .ok (forest.map Entry.ofToken) := by
      rw [hparse, hforest]
      rfl
    rw [hok, (parseText_eq_ok_iff.1 hok).2.2]
    rfl

/-- The outline of a text that ends with a line break and of one that is empty or begins with a word is that of the one
beside that of the other. -/
theorem outlineOf_append {front text : String} (hfront : front.toList.getLast? = some '\n')
    (hword : ∀ c ∈ text.toList.head?, Scanner.isWordChar c = true) {unit : Nat} (hunit : unit ≠ 0) :
    outlineOf (front ++ text) unit =
      (outlineOf front unit).beside ((outlineOf text unit).map (Entry.shifted (.of front.toList))) := by
  let d := Shift.of front.toList
  have hunitOf (ls : List Line) : Line.unitOf unit ls = unit := if_neg hunit
  have hlines : contentLines (front ++ text).toList =
      contentLines front.toList ++ (contentLines text.toList).map (Line.raised d.line) := by
    rw [String.toList_append, contentLines_append hfront]
    rfl
  -- the lines of the second text are indented as they are on their own, and the first of them not at all
  have halike : ∀ l ∈ contentLines text.toList, (l.raised d.line).indentation = l.indentation ∧
      (l.raised d.line).entry = l.entry.shifted d := fun l hl =>
    ⟨indentation_raised_of_word hword d.line l hl, rfl⟩
  have hroot : ∀ y ∈ (Line.depths unit ((contentLines text.toList).map (Line.raised d.line))).head?, y.1 = 0 := by
    rw [Line.depths_map unit halike, Line.depths, List.map_map, List.head?_map]
    intro y hy
    obtain ⟨l, hl, rfl⟩ := Option.map_eq_some_iff.1 hy
    show l.indentation / unit = 0
    rw [Line.indentation, if_pos ((contentLines_word hword).1 l hl), Nat.zero_div]
  unfold outlineOf
  dsimp only
  rw [hunitOf, hunitOf, hunitOf, hlines, Line.depths_append, Forest.ofLevels_append_of_root hroot,
    Line.depths_map unit halike, Forest.map_ofLevels]

/-- A line of blanks alone behind a line break changes the outline in the numbers of lines only. -/
theorem outlineOf_insert {front text blank : String} (hfront : front.toList.getLast? = some '\n') {run ending : List Char}
    (hblank : blank.toList = run ++ ending) (hrun : ∀ c ∈ run, Text.isBlankChar c = true)
    (hending : ending = ['\n'] ∨ ending = ['\r', '\n']) (unit : Nat) :
    outlineOf (front ++ blank ++ text) unit =
      (outlineOf (front ++ text) unit).map (Entry.shiftedFrom (.behind front.toList) ⟨blank.length, 1⟩) := by
  let limit := Cursor.behind front.toList
  let d : Shift := ⟨blank.length, 1⟩
  have hlines : contentLines (front ++ blank ++ text).toList =
      (contentLines (front ++ text).toList).map (Line.raisedFrom limit.line d.line) := by
    rw [String.toList_append, String.toList_append, String.toList_append, hblank, List.append_assoc,
      contentLines_insert hfront hrun hending, Nat.add_comm 1]
    rfl
  have halike : ∀ l ∈ contentLines (front ++ text).toList,
      (l.raisedFrom limit.line d.line).indentation = l.indentation ∧
        (l.raisedFrom limit.line d.line).entry = l.entry.shiftedFrom limit d := by
    intro l _
    refine ⟨?_, Line.entry_raisedFrom limit d l⟩
    -- what is behind a line break is not the first line
    have hpos := List.count_pos_iff.2 (List.mem_of_getLast? hfront)
    have hlimit : limit.line = front.toList.count '\n' + 1 := rfl
    unfold Line.raisedFrom
    split
    · exact Line.indentation_raised (by omega) d.line
    · rfl
  unfold outlineOf
  dsimp only
  rw [hlines, Line.unitOf_map unit halike, Line.depths_map _ halike, Forest.map_ofLevels]

/-! ## Two texts -/

/-- **A text that ends with a line break and one that is empty or begins with a word are read apart**, where the unit is
fixed.  The tokens of the two together, markers included, are those of the one and those of the other further on, and the
outlines stand beside one another.  If the first is refused, so are both together, for the same reason; if the second
alone is, for its reason further on. -/
theorem texts_apart {front text : String} (hfront : front.toList.getLast? = some '\n')
    (hword : ∀ c ∈ text.toList.head?, Scanner.isWordChar c = true) {unit : Nat} (hunit : 0 < unit) (v : Variant)
    (policy : Policy) :
    let d : Shift := ⟨front.length, front.toList.count '\n'⟩
    tokenize (front ++ text) v policy unit = (do
      let ts ← tokenize front v policy unit
      let us ← (tokenize text v policy unit).mapError (Fault.shifted d)
      return ts ++ us.map (Token.shifted d)) ∧
    parseText (front ++ text) unit = (do
      let f ← parseText front unit
      let g ← (parseText text unit).mapError (Failure.mapFault (Fault.shifted d))
      return f.beside (g.map (Entry.shifted d))) := by
  intro d
  have hne : unit ≠ 0 := Nat.pos_iff_ne_zero.1 hunit
  have hd : d = .of front.toList := by
    rw [Shift.of, String.length_toList]
  rw [hd]
  refine ⟨tokenize_append hfront v policy hword hne, ?_⟩
  rw [parseText_eq _ _ .after, parseText_eq _ _ .after, parseText_eq _ _ .after,
    tokenize_append hfront .ignore .after hword hne, outlineOf_append hfront hword hne]
  cases tokenize front .ignore .after unit with
  | error f => rfl
  | ok ts => cases tokenize text .ignore .after unit <;> rfl

/-- Two texts with a level each, which the first does not close itself. -/
theorem texts_apart_levels : ∃ ts us f g,
    tokenize "a\n  b\n" .space .before 2 = .ok ts ∧ tokenize "c\n    d" .space .before 2 = .ok us ∧
      parseText "a\n  b\n" 2 = .ok f ∧ parseText "c\n    d" 2 = .ok g ∧
      tokenize ("a\n  b\n" ++ "c\n    d") .space .before 2 = .ok (ts ++ us.map (Token.shifted ⟨6, 2⟩)) ∧
      parseText ("a\n  b\n" ++ "c\n    d") 2 = .ok (f.beside (g.map (Entry.shifted ⟨6, 2⟩))) := by
  have hfront : "a\n  b\n".toList.getLast? = some '\n' := by decide +kernel
  have hhead : "c\n    d".toList.head? = some 'c' := by decide +kernel
  have hword : ∀ c ∈ "c\n    d".toList.head?, Scanner.isWordChar c = true := by
    rw [hhead]
    exact fun c hc => Option.some.inj hc ▸ rfl
  obtain ⟨htokens, hparsed⟩ := texts_apart hfront hword (show 0 < 2 by decide) .space .before
  have hgives (text : String) (hstray : Text.hasStray text.toList = false)
      (hfits : ∀ l ∈ contentLines text.toList, 2 ∣ l.indentation) : ∃ f, parseText text 2 = .ok f :=
    ⟨_, parseText_eq_ok_iff.2 ⟨hstray, hfits, rfl⟩⟩
  obtain ⟨f, hf⟩ := hgives "a\n  b\n" (by decide +kernel) (by decide +kernel)
  obtain ⟨g, hg⟩ := hgives "c\n    d" (by decide +kernel) (by decide +kernel)
  have hcut (text : String) (us : List Token)
      (hscan : Variant.space.scanner.scan text = Source.ofTokensUntil us none)
      (hfault : (layout (wordConfig .before 2) none 2 [] (segments (wordConfig .before 2) us)).fault = none) :
      ∃ ts, tokenize text .space .before 2 = .ok ts := ⟨_, (tokenize_of_layout hscan).2 hfault⟩
  obtain ⟨ts, hts⟩ := hcut "a\n  b\n" ((Variant.space.scanner.scan "a\n  b\n").filterMap Reply.token?)
    (by decide +kernel) (by decide +kernel)
  obtain ⟨us, hus⟩ := hcut "c\n    d" ((Variant.space.scanner.scan "c\n    d").filterMap Reply.token?)
    (by decide +kernel) (by decide +kernel)
  refine ⟨ts, us, f, g, hts, hus, hf, hg, ?_, ?_⟩
  · rw [htokens, hts, hus]
    rfl
  · rw [hparsed, hf, hg]
    rfl

/-- **Lines of blanks alone are transparent.**  Such a line, put behind a line break, adds its own tokens there: its line
break, and its white space unless the variant or the policy drops it.  Every other token stays as it is, or moves if it
starts behind that line break; markers and words keep their order.  A text that is refused is refused for the same
reason, about a place that has moved likewise, and the outline changes in the numbers of lines only. -/
theorem blank_line_transparent {front text blank : String} (hfront : front.toList.getLast? = some '\n')
    {run ending : List Char} (hblank : blank.toList = run ++ ending) (hrun : ∀ c ∈ run, Text.isBlankChar c = true)
    (hending : ending = ['\n'] ∨ ending = ['\r', '\n']) (v : Variant) (policy : Policy) (unit : Nat) :
    let limit := Cursor.behind front.toList
    let d : Shift := ⟨blank.length, 1⟩
    let move := Token.shiftedFrom limit d
    (∀ f, tokenize (front ++ text) v policy unit = .error f →
      tokenize (front ++ blank ++ text) v policy unit = .error (f.shiftedFrom limit d)) ∧
    (∀ ts, tokenize (front ++ text) v policy unit = .ok ts → ∃ before newline after us,
      ts = before ++ newline :: after ∧ newline.type = .name "NL" ∧ newline.level = none ∧ newline.stop = limit.place ∧
      tokenize (front ++ blank ++ text) v policy unit = .ok us ∧
      us = before.map move ++ newline :: (v.blankLine policy limit run ending ++ after.map move) ∧
      us.filter Token.isSolid = (ts.filter Token.isSolid).map move) ∧
    parseText (front ++ blank ++ text) unit = ((parseText (front ++ text) unit).map
      (Forest.map (Entry.shiftedFrom limit d))).mapError (Failure.mapFault (Fault.shiftedFrom limit d)) := by
  intro limit d move
  obtain ⟨hrefused, hgiven⟩ := tokenize_insert hfront v policy hblank hrun hending unit
  refine ⟨hrefused, fun ts hts => ?_, ?_⟩
  · obtain ⟨before, newline, after, rfl, htype, hlevel, hstop, hok⟩ := hgiven ts hts
    refine ⟨before, newline, after, _, rfl, htype, hlevel, hstop, hok, rfl, ?_⟩
    have hmap (xs : List Token) : (xs.map move).filter Token.isSolid = (xs.filter Token.isSolid).map move := by
      have hsolid : Token.isSolid ∘ move = Token.isSolid := funext (Token.isSolid_shiftedFrom limit d)
      rw [List.filter_map, hsolid]
    have hnewline : ¬ newline.isSolid = true := by
      rw [Token.isSolid_newline htype]
      exact Bool.false_ne_true
    rw [List.filter_append, List.filter_cons_of_neg hnewline, List.filter_append, v.filter_isSolid_blankLine,
      List.nil_append, hmap, hmap, ← List.map_append, List.filter_append, List.filter_cons_of_neg hnewline]
  · obtain ⟨hrefused, hgiven⟩ := tokenize_insert hfront .ignore .after hblank hrun hending unit
    rw [parseText_eq _ _ .after, parseText_eq _ _ .after, outlineOf_insert hfront hblank hrun hending]
    cases ht : tokenize (front ++ text) .ignore .after unit with
    | error f =>
      rw [hrefused f ht]
      rfl
    | ok ts =>
      obtain ⟨_, _, _, -, -, -, -, hok⟩ := hgiven ts ht
      rw [hok]
      rfl

/-- A line of a tab and two blanks in front of a line that closes a level. -/
theorem blank_line_transparent_closing : ∃ ts us,
    tokenize ("a\n  b\n" ++ "c") .space .before 0 = .ok ts ∧
      tokenize ("a\n  b\n" ++ "\t  \r\n" ++ "c") .space .before 0 = .ok us ∧
      (us.filter Token.isSolid).map (fun t => (t.type, t.start.line)) =
        [(.name "WORD", .int 1), (.name "INDENT", .int 2), (.name "WORD", .int 2), (.name "DEDENT", .int 2),
          (.name "WORD", .int 4)] := by
  have hfront : "a\n  b\n".toList.getLast? = some '\n' := by decide +kernel
  have hrun : ∀ c ∈ ['\t', ' ', ' '], Text.isBlankChar c = true := by simp [Text.isBlankChar]
  have hblank : "\t  \r\n".toList = ['\t', ' ', ' '] ++ ['\r', '\n'] := by decide +kernel
  obtain ⟨-, hgiven, -⟩ := blank_line_transparent hfront hblank hrun (.inr rfl) .space .before 0
  let text := "a\n  b\n" ++ "c"
  let vs := (Variant.space.scanner.scan text).filterMap Reply.token?
  have hscan : Variant.space.scanner.scan text = Source.ofTokensUntil vs none := by decide +kernel
  have hfault : (layout (wordConfig .before 0) none 0 [] (segments (wordConfig .before 0) vs)).fault = none := by
    decide +kernel
  have hts := (tokenize_of_layout hscan).2 hfault
  obtain ⟨-, -, -, us, -, -, -, -, hus, -, hsolid⟩ := hgiven _ hts
  refine ⟨_, us, hts, hus, ?_⟩
  rw [hsolid]
  decide +kernel

end Outline
end Offside
