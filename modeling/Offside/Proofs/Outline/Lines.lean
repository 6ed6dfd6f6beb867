import Offside.Outline.Document
import Offside.Proofs.Cuts
import Offside.Proofs.Levels.Depths
import Offside.Proofs.Stream.Draining
/-!
# The lines of a text

A text falls into lines at its line feeds.  What the scanner for lines gives is said line by line (`Scanned`): a token
for each line with content, which starts behind the blanks of the line, and a token for each line break.  The scanner
reads a text to its end unless it holds a carriage return that no line feed follows (`scanFrom_eq`).
-/
namespace Offside

namespace Text

/-- Whether a text holds a carriage return that no line feed follows. -/
def hasStray : List Char → Bool
  | [] => false
  | c :: cs => (c == '\r' && cs.head? != some '\n') || hasStray cs

theorem hasStray_append {xs : List Char} (h : '\r' ∉ xs) (ys : List Char) : hasStray (xs ++ ys) = hasStray ys := by
  induction xs with
  | nil => rfl
  | cons x xs ih =>
    rw [List.mem_cons, not_or] at h
    rw [List.cons_append, hasStray, ih h.2, beq_false_of_ne (Ne.symm h.1), Bool.false_and, Bool.false_or]

theorem hasStray_of_not_mem {cs : List Char} (h : '\r' ∉ cs) : hasStray cs = false := by
  have := hasStray_append h []
  rwa [List.append_nil] at this

theorem stripRight_append {t : List Char} (h : ∀ c ∈ t, isSpace c = true) (s : List Char) :
    stripRight (s ++ t) = stripRight s := by
  have hdropped : ∀ c ∈ t.reverse, isSpace c = true := fun c hc => h c (List.mem_reverse.1 hc)
  rw [stripRight, stripRight, List.reverse_append, List.dropWhile_append_of_pos hdropped]

end Text

namespace Outline

/-- A line of a text, without the line feed at its end, and its number. -/
structure Line where
  number : Nat
  chars : List Char
deriving DecidableEq, Repr

namespace Line

/-- The lines of a text, numbered from a given number on. -/
def numbered (start : Nat) (lines : List (List Char)) : List Line :=
  (lines.zipIdx start).map (fun l => ⟨l.2, l.1⟩)

/-- Whether there is anything but blanks and the carriage return of a line break. -/
def isContent (l : Line) : Bool :=
  l.chars.any (fun c => !Text.isBlankChar c && c != '\r')

/-- How many blanks a line begins with. -/
def leading (l : Line) : Nat :=
  (l.chars.takeWhile Text.isBlankChar).length

/-- The indentation of a line.  It is measured behind line breaks only, so the very first line has none. -/
def indentation (l : Line) : Nat :=
  if l.number = 1 then 0 else l.leading

def entry (l : Line) : Entry :=
  ⟨String.ofList (Text.stripRight (l.chars.dropWhile Text.isBlankChar)), .int l.number⟩

/-- What the scanner reads of a line: the text from the first character that is no blank up to the line break. -/
def word (l : Line) : List Char :=
  (l.chars.dropWhile Text.isBlankChar).takeWhile Scanner.isLineChar

/-- The carriage return at the end of a line, and what is behind it. -/
def ending (l : Line) : List Char :=
  (l.chars.dropWhile Text.isBlankChar).dropWhile Scanner.isLineChar

end Line

/-- The lines of a text that have content. -/
def contentLines (cs : List Char) : List Line :=
  (Line.numbered 1 (cs.splitOn '\n')).filter Line.isContent

/-! ## The parts of a line -/

namespace Line

variable {l : Line}

theorem numbered_cons (start : Nat) (first : List Char) (lines : List (List Char)) :
    numbered start (first :: lines) = ⟨start, first⟩ :: numbered (start + 1) lines := rfl

theorem le_number_of_mem {start : Nat} {lines : List (List Char)} : ∀ l ∈ numbered start lines, start ≤ l.number := by
  intro l hl
  obtain ⟨x, hx, rfl⟩ := List.mem_map.1 hl
  exact List.le_snd_of_mem_zipIdx hx

theorem chars_eq (l : Line) : l.chars = l.chars.takeWhile Text.isBlankChar ++ (l.word ++ l.ending) := by
  rw [word, ending, List.takeWhile_append_dropWhile, List.takeWhile_append_dropWhile]

theorem isLineChar_of_blank {c : Char} (h : Text.isBlankChar c = true) : Scanner.isLineChar c = true := by
  simp only [Text.isBlankChar, Bool.or_eq_true, beq_iff_eq] at h
  rcases h with (rfl | rfl) | rfl <;> rfl

theorem isLineChar_of_mem_word {c : Char} (h : c ∈ l.word) : Scanner.isLineChar c = true :=
  List.mem_takeWhile_imp h

theorem isBlankChar_head_word {c : Char} (h : l.word.head? = some c) : Text.isBlankChar c = false := by
  obtain ⟨rest, hrest⟩ := List.head?_eq_some_iff.1 h
  have hc : (l.chars.dropWhile Text.isBlankChar).head? = some c := by
    cases hd : l.chars.dropWhile Text.isBlankChar with
    | nil => simp [word, hd] at hrest
    | cons x xs =>
      rw [word, hd, List.takeWhile_cons] at hrest
      split at hrest
      · rw [(List.cons.inj hrest).1]
        rfl
      · cases hrest
  have := List.head?_dropWhile_not Text.isBlankChar l.chars
  rw [hc] at this
  simpa using this

theorem ending_cases (h : '\n' ∉ l.chars) : l.ending = [] ∨ ∃ rest, l.ending = '\r' :: rest := by
  cases he : l.ending with
  | nil => exact .inl rfl
  | cons c rest =>
    have hc : Scanner.isLineChar c = false := by
      have := List.head?_dropWhile_not Scanner.isLineChar (l.chars.dropWhile Text.isBlankChar)
      rw [show (l.chars.dropWhile Text.isBlankChar).dropWhile Scanner.isLineChar = c :: rest from he] at this
      simpa using this
    have hn : c ≠ '\n' := by
      rintro rfl
      exact h (by rw [chars_eq l, he]; simp)
    have hr : c = '\r' := by simpa [Scanner.isLineChar, hn] using hc
    exact .inr ⟨rest, by rw [hr]⟩

/-- Whether a line ends where its word does, or behind one more carriage return. -/
def IsWhole (l : Line) : Prop :=
  l.ending = [] ∨ l.ending = ['\r']

theorem isContent_iff (h : l.IsWhole) : l.isContent = true ↔ l.word ≠ [] := by
  rw [isContent, List.any_eq_true]
  constructor
  · rintro ⟨c, hc, hp⟩ hw
    rw [chars_eq l, hw, List.nil_append, List.mem_append] at hc
    rcases hc with hc | hc
    · rw [List.mem_takeWhile_imp hc] at hp
      cases hp
    · rcases h with h | h
      · rw [h] at hc
        cases hc
      · rw [h, List.mem_singleton] at hc
        simp [hc] at hp
  · intro hw
    obtain ⟨c, rest, hc⟩ := List.exists_cons_of_ne_nil hw
    have hblank := isBlankChar_head_word (l := l) (c := c) (by rw [hc]; rfl)
    have hline := isLineChar_of_mem_word (l := l) (c := c) (by rw [hc]; simp)
    refine ⟨c, by rw [chars_eq l, hc]; simp, ?_⟩
    rw [hblank]
    simp only [Scanner.isLineChar, Bool.and_eq_true] at hline
    exact hline.1

theorem entry_eq (h : l.IsWhole) : l.entry = ⟨String.ofList (Text.stripRight l.word), .int l.number⟩ := by
  have hbody : l.chars.dropWhile Text.isBlankChar = l.word ++ l.ending := by
    rw [word, ending, List.takeWhile_append_dropWhile]
  rw [entry, hbody]
  rcases h with h | h
  · rw [h, List.append_nil]
  · have hspace : ∀ c ∈ ['\r'], Text.isSpace c = true := List.forall_mem_singleton.2 (by decide)
    rw [h, Text.stripRight_append hspace]

end Line
/-! ## The tokens of a line -/

/-- A token of a line: its word, with the place where that begins. -/
structure IsLineToken (l : Line) (t : Token) : Prop where
  type : t.type = .name "LINE"
  unmarked : t.isMarker = false
  value : t.value.toList = l.word
  line : t.start.line = .int l.number
  column : t.start.column = .int (l.leading + 1 : Nat)

/-- A token of a line break, which carries no indentation. -/
structure IsBreakToken (t : Token) : Prop where
  type : t.type = .name "_NL"
  scanned : t.IsScanned
  carried : t.carriedIndent = 0

/-- The tokens of a line: one, or none where there is no word. -/
inductive LineTokens (l : Line) : List Token → Prop where
  | nil (h : l.word = []) : LineTokens l []
  | one (h : l.word ≠ []) {t : Token} (ht : IsLineToken l t) : LineTokens l [t]

/-- The tokens of some lines, with line breaks between them. -/
inductive Scanned : List Line → List Token → Prop where
  | last {l : Line} {ts : List Token} (hl : l.IsWhole) (h : LineTokens l ts) : Scanned [l] ts
  | cons {l : Line} {ls : List Line} {ts us : List Token} {newline : Token} (hl : l.IsWhole) (h : LineTokens l ts)
      (hn : IsBreakToken newline) (hs : Scanned ls us) : Scanned (l :: ls) (ts ++ newline :: us)

theorem IsLineToken.isScanned {l : Line} {t : Token} (h : IsLineToken l t) : t.IsScanned :=
  ⟨h.unmarked, by rw [h.type]; rfl, .inr ⟨_, h.column⟩⟩

theorem LineTokens.isScanned {l : Line} {ts : List Token} (h : LineTokens l ts) : ∀ t ∈ ts, t.IsScanned := by
  cases h with
  | nil _ => simp
  | one _ ht => simpa using ht.isScanned

end Outline

/-! ## Scanning -/

namespace Cursor

theorem advance_of_not_mem : ∀ (s : List Char) (pos : Cursor), '\n' ∉ s →
    (pos.advance s).line = pos.line ∧ (pos.advance s).column = pos.column + s.length
  | [], _, _ => ⟨rfl, rfl⟩
  | c :: s, pos, h => by
    rw [List.mem_cons, not_or] at h
    have hstep : pos.step c = ⟨pos.offset + 1, pos.line, pos.column + 1⟩ := by rw [step, if_neg (Ne.symm h.1)]
    obtain ⟨hl, hc⟩ := advance_of_not_mem s (pos.step c) h.2
    rw [hstep] at hl hc
    refine ⟨by rw [← hl, ← hstep]; rfl, ?_⟩
    rw [List.length_cons, Nat.add_comm s.length, ← Nat.add_assoc, ← hc, ← hstep]
    rfl

end Cursor

namespace Scanner

variable {sc : Scanner}

theorem scanFrom_of_lexeme {c : Char} {rest : List Char} {l : Lexeme} {more : List Char}
    (h : sc.lexeme? c rest = some (l, more)) (pos : Cursor) :
    sc.scanFrom pos (c :: rest) =
      ((l.token? pos (pos.advance l.text)).map Reply.token).toList ++ sc.scanFrom (pos.advance l.text) more := by
  rw [scanFrom]
  split
  · rename_i hn
    cases hn.symm.trans h
  · rename_i l' more' hs
    cases hs.symm.trans h
    rfl

theorem scanFrom_of_stray {c : Char} {rest : List Char} (h : sc.lexeme? c rest = none) (pos : Cursor) :
    sc.scanFrom pos (c :: rest) = [.fault (.stray ⟨pos.offset, pos.line, pos.column⟩)] := by
  rw [scanFrom]
  split
  · rfl
  · rename_i hs
    cases hs.symm.trans h

end Scanner

namespace Outline

theorem scanFrom_blanks (pos : Cursor) (cs : List Char) :
    scanner.scanFrom pos cs =
      scanner.scanFrom (pos.advance (cs.takeWhile Text.isBlankChar)) (cs.dropWhile Text.isBlankChar) := by
  cases cs with
  | nil => rfl
  | cons c rest =>
    by_cases hc : Text.isBlankChar c = true
    · have hlexeme : scanner.lexeme? c rest =
          some (⟨none, c :: rest.takeWhile Text.isBlankChar⟩, rest.dropWhile Text.isBlankChar) := by
        simp [Scanner.lexeme?, hc, scanner]
      rw [Scanner.scanFrom_of_lexeme hlexeme, List.takeWhile_cons_of_pos hc, List.dropWhile_cons_of_pos hc]
      rfl
    · rw [List.takeWhile_cons_of_neg hc, List.dropWhile_cons_of_neg hc]
      rfl

/-- The token of a word at a cursor, if there is a word. -/
def wordTokens (pos : Cursor) (word : List Char) : List Token :=
  if word = [] then []
  else [{ type := .name "LINE", value := String.ofList word, start := pos.place, stop := (pos.advance word).place
          level := none }]

theorem scanFrom_word (pos : Cursor) {cs : List Char} (hcs : ∀ c ∈ cs.head?, Text.isBlankChar c = false) :
    let word := cs.takeWhile Scanner.isLineChar
    scanner.scanFrom pos cs = Source.ofTokens (wordTokens pos word) ++
      scanner.scanFrom (pos.advance word) (cs.dropWhile Scanner.isLineChar) := by
  intro word
  cases cs with
  | nil => rfl
  | cons c rest =>
    have hblank : Text.isBlankChar c = false := hcs c rfl
    by_cases hc : Scanner.isLineChar c = true
    · have hword : word = c :: rest.takeWhile Scanner.isLineChar := List.takeWhile_cons_of_pos hc
      obtain ⟨hr, hn⟩ : c ≠ '\r' ∧ c ≠ '\n' := by simpa [Scanner.isLineChar] using hc
      have hlexeme : scanner.lexeme? c rest =
          some (⟨some (.name "LINE"), word⟩, rest.dropWhile Scanner.isLineChar) := by
        simp [Scanner.lexeme?, hblank, hr, hn, hword, scanner]
      rw [Scanner.scanFrom_of_lexeme hlexeme, List.dropWhile_cons_of_pos hc, wordTokens, if_neg (by rw [hword]; simp)]
      rfl
    · have hword : word = [] := List.takeWhile_cons_of_neg hc
      rw [wordTokens, if_pos hword, hword, List.dropWhile_cons_of_neg hc]
      rfl

theorem scanFrom_line {l : Line} (hl : '\n' ∉ l.chars) {tail : List Char} (htail : ∀ c ∈ tail.head?, c = '\n')
    {pos : Cursor} (hline : pos.line = l.number) (hcolumn : pos.column = 1) :
    ∃ ts pos', LineTokens l ts ∧ pos'.line = l.number ∧
      scanner.scanFrom pos (l.chars ++ tail) = Source.ofTokens ts ++ scanner.scanFrom pos' (l.ending ++ tail) := by
  have hblank : ∀ c ∈ tail.head?, Text.isBlankChar c = false := fun c hc => by rw [htail c hc]; rfl
  have hinline : ∀ c ∈ tail.head?, Scanner.isLineChar c = false := fun c hc => by rw [htail c hc]; rfl
  have hsplit := Line.chars_eq l
  have hb : '\n' ∉ l.chars.takeWhile Text.isBlankChar := fun h => hl (List.takeWhile_sublist _ |>.subset h)
  have hw : '\n' ∉ l.word := fun h => hl (by rw [hsplit]; simp [h])
  have hbody : ∀ c ∈ (l.chars.dropWhile Text.isBlankChar ++ tail).head?, Text.isBlankChar c = false := by
    intro c hc
    have := List.head?_dropWhile_not Text.isBlankChar (l.chars ++ tail)
    rw [dropWhile_append hblank, Option.mem_def.1 hc] at this
    simpa using this
  obtain ⟨hline', hcolumn'⟩ := Cursor.advance_of_not_mem _ pos hb
  let start := pos.advance (l.chars.takeWhile Text.isBlankChar)
  obtain ⟨hline'', -⟩ := Cursor.advance_of_not_mem _ start hw
  have htokens : LineTokens l (wordTokens start l.word) := by
    rw [wordTokens]
    by_cases hne : l.word = []
    · rw [if_pos hne]
      exact .nil hne
    · rw [if_neg hne]
      refine .one hne ⟨rfl, rfl, String.toList_ofList, ?_, ?_⟩
      · show Datum.int _ = _
        rw [hline', hline]
      · show Datum.int _ = _
        rw [hcolumn', hcolumn, Nat.add_comm]
        rfl
  refine ⟨wordTokens start l.word, start.advance l.word, htokens, hline''.trans (hline'.trans hline), ?_⟩
  rw [scanFrom_blanks, takeWhile_append hblank, dropWhile_append hblank, scanFrom_word _ hbody,
    takeWhile_append hinline, dropWhile_append hinline]
  rfl

/-- The token of a line break at a cursor. -/
def breakToken (pos : Cursor) (text : List Char) : Token :=
  { type := .name "_NL", value := String.ofList text, start := pos.place, stop := (pos.advance text).place
    level := none }

theorem isBreakToken_breakToken (pos : Cursor) {text : List Char} (h : text = ['\n'] ∨ text = ['\r', '\n']) :
    IsBreakToken (breakToken pos text) := by
  refine ⟨rfl, ⟨rfl, rfl, .inr ⟨_, rfl⟩⟩, ?_⟩
  rw [Token.carriedIndent, breakToken, String.toList_ofList]
  rcases h with rfl | rfl <;> rfl

theorem scanFrom_break {ending : List Char} (he : ending = [] ∨ ending = ['\r']) (pos : Cursor) (more : List Char) :
    ∃ newline pos', IsBreakToken newline ∧ pos'.line = pos.line + 1 ∧ pos'.column = 1 ∧
      scanner.scanFrom pos (ending ++ '\n' :: more) = .token newline :: scanner.scanFrom pos' more := by
  rcases he with rfl | rfl
  · have hlexeme : scanner.lexeme? '\n' more = some (⟨some (.name "_NL"), ['\n']⟩, more) := rfl
    refine ⟨breakToken pos ['\n'], pos.advance ['\n'], isBreakToken_breakToken pos (.inl rfl), rfl, rfl, ?_⟩
    rw [List.nil_append, Scanner.scanFrom_of_lexeme hlexeme]
    rfl
  · have hlexeme : scanner.lexeme? '\r' ('\n' :: more) = some (⟨some (.name "_NL"), ['\r', '\n']⟩, more) := rfl
    refine ⟨breakToken pos ['\r', '\n'], pos.advance ['\r', '\n'], isBreakToken_breakToken pos (.inr rfl), rfl, rfl, ?_⟩
    rw [List.singleton_append, Scanner.scanFrom_of_lexeme hlexeme]
    rfl

theorem hasStray_chars {l : Line} (tail : List Char) :
    Text.hasStray (l.chars ++ tail) = Text.hasStray (l.ending ++ tail) := by
  have hb : '\r' ∉ l.chars.takeWhile Text.isBlankChar := fun h => by
    have : Text.isBlankChar '\r' = true := List.mem_takeWhile_imp h
    cases this
  have hw : '\r' ∉ l.word := fun h => by
    have : Scanner.isLineChar '\r' = true := Line.isLineChar_of_mem_word h
    cases this
  conv_lhs =>
    rw [Line.chars_eq l, List.append_assoc, List.append_assoc, Text.hasStray_append hb, Text.hasStray_append hw]

theorem scanFrom_stray {rest : List Char} (hr : rest.head? ≠ some '\n') (pos : Cursor) :
    ∃ f, scanner.scanFrom pos ('\r' :: rest) = [.fault f] := by
  refine ⟨_, Scanner.scanFrom_of_stray ?_ pos⟩
  have hblank : Text.isBlankChar '\r' = false := rfl
  unfold Scanner.lexeme?
  rw [hblank, if_neg Bool.false_ne_true, if_neg (by decide), if_pos rfl]
  split
  · exact absurd rfl hr
  · rfl

theorem scanFrom_stray_line {l : Line} (hl : '\n' ∉ l.chars) {tail : List Char} (htail : ∀ c ∈ tail.head?, c = '\n')
    {pos : Cursor} (hline : pos.line = l.number) (hcolumn : pos.column = 1) {rest : List Char}
    (he : l.ending = '\r' :: rest) (hr : (rest ++ tail).head? ≠ some '\n') :
    ∃ ts failure, scanner.scanFrom pos (l.chars ++ tail) = Source.ofTokensUntil ts (some failure) ∧
      (∀ t ∈ ts, t.IsScanned) ∧ Text.hasStray (l.chars ++ tail) = true := by
  obtain ⟨ts, pos', hts, -, hscan⟩ := scanFrom_line hl htail hline hcolumn
  obtain ⟨f, hf⟩ := scanFrom_stray hr pos'
  refine ⟨ts, f, ?_, hts.isScanned, ?_⟩
  · rw [hscan, he, List.cons_append, hf]
    rfl
  · rw [hasStray_chars, he, List.cons_append, Text.hasStray, beq_self_eq_true, bne_iff_ne.2 hr]
    rfl

/-- **The scanner gives the tokens of a text's lines, unless the text holds a stray carriage return**; then it gives
some tokens and fails.  The induction is on the lines, and each is scanned from a cursor at its front. -/
theorem scanFrom_eq (lines : List (List Char)) : ∀ (cs : List Char) (pos : Cursor), cs.splitOn '\n' = lines →
    pos.column = 1 → ∃ ts failure, scanner.scanFrom pos cs = Source.ofTokensUntil ts failure ∧
      (∀ t ∈ ts, t.IsScanned) ∧ failure.isSome = Text.hasStray cs ∧
      (failure = none → Scanned (Line.numbered pos.line lines) ts) := by
  induction lines with
  | nil => exact fun cs _ h => absurd h (List.splitOn_ne_nil _ _)
  | cons chars lines ih =>
    intro cs pos hlines hcolumn
    by_cases hcs : '\n' ∈ cs
    · obtain ⟨first, more, rfl, hfirst⟩ := List.eq_append_cons_of_mem hcs
      rw [List.splitOn_append_cons_self_of_not_mem hfirst] at hlines
      obtain ⟨rfl, hmore⟩ := List.cons.inj hlines
      let l : Line := ⟨pos.line, first⟩
      have htail : ∀ c ∈ ('\n' :: more).head?, c = '\n' := by simp
      obtain ⟨ts, pos', hts, hline', hscan⟩ := scanFrom_line (l := l) hfirst htail rfl hcolumn
      by_cases hwhole : l.IsWhole
      · obtain ⟨newline, next, hnewline, hline, hcolumn', hbreak⟩ := scanFrom_break hwhole pos' more
        obtain ⟨us, failure, hus, hscanned, hfailure, hshown⟩ := ih more next hmore hcolumn'
        refine ⟨ts ++ newline :: us, failure, ?_, ?_, ?_, fun hf => ?_⟩
        · rw [hscan, hbreak, hus]
          simp [Source.ofTokensUntil, Source.ofTokens]
        · intro t ht
          rcases List.mem_append.1 ht with ht | ht
          · exact hts.isScanned t ht
          · rcases List.mem_cons.1 ht with rfl | ht
            · exact hnewline.scanned
            · exact hscanned t ht
        · rw [hasStray_chars (l := l), hfailure]
          rcases hwhole with he | he <;> rw [he] <;> rfl
        · have hs := hshown hf
          rw [hline, hline'] at hs
          exact .cons hwhole hts hnewline hs
      · -- behind a carriage return the line goes on, so what follows there is no line feed
        obtain ⟨rest, he⟩ := (Line.ending_cases hfirst).resolve_left fun he => hwhole (.inl he)
        have hr : (rest ++ '\n' :: more).head? ≠ some '\n' := by
          cases rest with
          | nil => exact absurd (.inr he) hwhole
          | cons c rest =>
            intro hc
            obtain rfl : c = '\n' := Option.some.inj hc
            exact hfirst (show '\n' ∈ l.chars by rw [Line.chars_eq l, he]; simp)
        obtain ⟨us, f, hscan, hscanned, hstray⟩ := scanFrom_stray_line (l := l) hfirst htail rfl hcolumn he hr
        exact ⟨us, some f, hscan, hscanned, hstray.symm, nofun⟩
    · rw [List.splitOn_eq_singleton hcs] at hlines
      obtain ⟨rfl, rfl⟩ := List.cons.inj hlines
      let l : Line := ⟨pos.line, cs⟩
      have htail : ∀ c ∈ ([] : List Char).head?, c = '\n' := nofun
      rcases Line.ending_cases (l := l) hcs with he | ⟨rest, he⟩
      · obtain ⟨ts, pos', hts, -, hscan⟩ := scanFrom_line (l := l) hcs htail rfl hcolumn
        have hstray := hasStray_chars (l := l) []
        rw [List.append_nil, he, List.append_nil] at hscan hstray
        refine ⟨ts, none, ?_, hts.isScanned, hstray.symm, fun _ => .last (.inl he) hts⟩
        rw [hscan, Scanner.scanFrom, Source.ofTokensUntil]
        rfl
      · have hr : (rest ++ []).head? ≠ some '\n' := by
          intro hc
          rw [List.append_nil] at hc
          obtain ⟨rest, rfl⟩ := List.head?_eq_some_iff.1 hc
          exact hcs (show '\n' ∈ l.chars by rw [Line.chars_eq l, he]; simp)
        obtain ⟨us, f, hscan, hscanned, hstray⟩ := scanFrom_stray_line (l := l) hcs htail rfl hcolumn he hr
        rw [List.append_nil] at hscan hstray
        exact ⟨us, some f, hscan, hscanned, hstray.symm, nofun⟩

end Outline
end Offside
