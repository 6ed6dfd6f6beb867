import Offside.Proofs.Scanner.Slices
/-!
# The places of the tokens of a text

The text in front of a token says where the token stands: how many characters there are, how many line feeds, and how
many characters behind the last of these (`Cursor.behind`).  A scanner that keeps blanks cuts a text into words, blanks
and line breaks that stand there, up to its end or to a stray carriage return (`scan_places`).

That a word is as long as it gets takes both its neighbours: the scanner sees the character behind a word, and never cuts
the text in front of one inside a run of word characters (`Parted`).
-/
namespace Offside

/-! ## Places -/

namespace Text

theorem lastLine_concat (s : List Char) (c : Char) :
    lastLine (s ++ [c]) = if c = '\n' then [] else lastLine s ++ [c] := by
  show (s ++ [c]).rtakeWhile (· != '\n') = _
  rw [List.rtakeWhile_concat]
  by_cases hc : c = '\n'
  · simp [hc]
  · simp [hc, lastLine, List.rtakeWhile]

theorem lastLine_append (s t : List Char) :
    lastLine (s ++ t) = if '\n' ∈ t then lastLine t else lastLine s ++ t := by
  induction t using List.reverseRecOn with
  | nil => simp
  | append_singleton t c ih =>
    rw [← List.append_assoc, lastLine_concat, lastLine_concat, ih]
    by_cases hc : c = '\n'
    · simp [hc]
    · have hmem : '\n' ∈ t ++ [c] ↔ '\n' ∈ t := by simp [Ne.symm hc]
      by_cases ht : '\n' ∈ t
      · rw [if_neg hc, if_pos ht, if_pos (hmem.2 ht), if_neg hc]
      · rw [if_neg hc, if_neg ht, if_neg (fun h => ht (hmem.1 h)), List.append_assoc]

end Text

namespace Cursor

/-- The cursor behind some text: how many characters it has, how many line feeds, and how many characters behind the
last of these. -/
def behind (front : List Char) : Cursor :=
  ⟨front.length, front.count '\n' + 1, (Text.lastLine front).length + 1⟩

theorem behind_append_step (front : List Char) (c : Char) : behind (front ++ [c]) = (behind front).step c := by
  unfold behind step
  rw [Text.lastLine_concat]
  by_cases h : c = '\n' <;> simp [h]

/-- A cursor that goes on stands where the text behind it says. -/
theorem advance_behind (front text : List Char) : (behind front).advance text = behind (front ++ text) := by
  induction text using List.reverseRecOn with
  | nil => rw [List.append_nil]; rfl
  | append_singleton text c ih => rw [advance_append, ih, ← List.append_assoc, behind_append_step]; rfl

end Cursor

/-! ## Cuts -/

/-- A text cut where no run of characters with a property goes on. -/
def Parted (p : Char → Bool) (front rest : List Char) : Prop :=
  ∀ c ∈ front.getLast?, ∀ d ∈ rest.head?, p c = false ∨ p d = false

/-- A text between others with neither neighbour having a property, so that a run of characters that have it is as long
as it gets. -/
def Standalone (p : Char → Bool) (front rest : List Char) : Prop :=
  (∀ c ∈ front.getLast?, p c = false) ∧ ∀ d ∈ rest.head?, p d = false

/-- A token that a scanner cuts from a text, with some text in front of it and some behind it: it stands where these
say, and a run of blanks is one token or one for each. -/
structure Token.IsCut (joins : Bool) (front : List Char) (t : Token) (rest : List Char) : Prop where
  start : t.start = (Cursor.behind front).place
  stop : t.stop = (Cursor.behind (front ++ t.value.toList)).place
  level : t.level = none
  piece : IsPiece t.type t.value.toList
  word : t.type = .name "WORD" → Standalone Scanner.isWordChar front rest
  blanks : t.type = .name "WS" → if joins = true then Standalone Text.isBlankChar front rest else t.value.length = 1

/-- The fault of a stray carriage return at a cursor. -/
def Cursor.stray (pos : Cursor) : Fault :=
  .stray ⟨pos.offset, pos.line, pos.column⟩

/-- How a text behind another one is cut into tokens, up to its end or to a stray carriage return. -/
inductive CutFrom (joins : Bool) : List Char → List Char → List Token → Option Fault → Prop where
  | done (front : List Char) : CutFrom joins front [] [] none
  | stray {front more : List Char} (h : more.head? ≠ some '\n') :
      CutFrom joins front ('\r' :: more) [] (some (Cursor.behind front).stray)
  | token {front text rest : List Char} {t : Token} {ts : List Token} {failure : Option Fault}
      (htext : t.value.toList = text) (h : t.IsCut joins front rest)
      (hrest : CutFrom joins (front ++ text) rest ts failure) : CutFrom joins front (text ++ rest) (t :: ts) failure

section
variable {p : Char → Bool} {front text rest : List Char}

theorem Parted.start (rest : List Char) : Parted p [] rest := by
  simp [Parted]

theorem Parted.behind (hne : text ≠ []) (h : ∀ c ∈ text, p c = false) : Parted p (front ++ text) rest := by
  intro c hc d _
  rw [List.getLast?_append_of_ne_nil _ hne] at hc
  exact .inl (h c (List.mem_of_getLast? hc))

theorem Parted.before (h : ∀ d ∈ rest.head?, p d = false) : Parted p front rest :=
  fun _ _ d hd => .inr (h d hd)

theorem Parted.standalone {c : Char} (h : Parted p front (c :: text)) (hc : p c = true)
    (hrest : ∀ d ∈ rest.head?, p d = false) : Standalone p front rest := by
  refine ⟨fun b hb => ?_, hrest⟩
  rcases h b hb c rfl with h | h
  · exact h
  · rw [hc] at h
    cases h

theorem hasStray_piece {type : TokenType} (h : IsPiece type text) (rest : List Char) :
    Text.hasStray (text ++ rest) = Text.hasStray rest := by
  cases h with
  | word _ h =>
    refine Text.hasStray_append (fun hr => ?_) rest
    have := h '\r' hr
    cases this
  | blanks _ h =>
    refine Text.hasStray_append (fun hr => ?_) rest
    have := h '\r' hr
    cases this
  | newline h => rcases h with rfl | rfl <;> rfl

end

namespace CutFrom

variable {joins : Bool} {front cs : List Char} {ts : List Token} {failure : Option Fault}

/-- The tokens make up the text up to where they end. -/
theorem tiles (h : CutFrom joins front cs ts failure) : ∃ rest, cs = charsOf ts ++ rest ∧
    Text.hasStray (charsOf ts) = false ∧
    (failure = none ∧ rest = [] ∨ ∃ more, rest = '\r' :: more ∧ more.head? ≠ some '\n' ∧
      failure = some (Cursor.behind (front ++ charsOf ts)).stray) := by
  induction h with
  | done => exact ⟨[], rfl, rfl, .inl ⟨rfl, rfl⟩⟩
  | @stray front more hmore =>
    refine ⟨'\r' :: more, rfl, rfl, .inr ⟨more, rfl, hmore, ?_⟩⟩
    rw [charsOf_nil, List.append_nil]
  | @token front text rest t ts failure htext h _ ih =>
    obtain ⟨left, rfl, hclean, hends⟩ := ih
    have hpiece := h.piece
    rw [htext] at hpiece
    refine ⟨left, ?_, ?_, ?_⟩
    · rw [charsOf_cons, htext, List.append_assoc]
    · rw [charsOf_cons, htext, hasStray_piece hpiece, hclean]
    · rwa [charsOf_cons, htext, ← List.append_assoc]

/-- Each token is cut from what is in front of it and behind it. -/
theorem isCut (h : CutFrom joins front cs ts failure) {rest : List Char} (hrest : cs = charsOf ts ++ rest) :
    ∀ {before after : List Token} {t : Token}, ts = before ++ t :: after →
      t.IsCut joins (front ++ charsOf before) (charsOf after ++ rest) := by
  induction h with
  | done | stray =>
    intro before after t heq
    cases before <;> cases heq
  | @token front text more u us failure htext h _ ih =>
    intro before after t heq
    rw [charsOf_cons, htext, List.append_assoc] at hrest
    have hmore := List.append_cancel_left hrest
    cases before with
    | nil =>
      obtain ⟨rfl, rfl⟩ := List.cons.inj heq
      rw [charsOf_nil, List.append_nil, ← hmore]
      exact h
    | cons v before =>
      obtain ⟨rfl, hafter⟩ := List.cons.inj heq
      rw [charsOf_cons, htext, ← List.append_assoc]
      exact ih hmore hafter

/-- One more token in front, where a scanner puts it. -/
theorem cons {type : TokenType} {text rest : List Char} (hpiece : IsPiece type text)
    (hword : type = .name "WORD" → Standalone Scanner.isWordChar front rest)
    (hblanks : type = .name "WS" → if joins = true then Standalone Text.isBlankChar front rest else text.length = 1)
    (h : CutFrom joins (front ++ text) rest ts failure) :
    CutFrom joins front (text ++ rest) (tokenAt type (.behind front) text :: ts) failure := by
  have htext : (tokenAt type (.behind front) text).value.toList = text := String.toList_ofList
  refine .token htext ⟨rfl, ?_, rfl, ?_, hword, ?_⟩ h
  · rw [htext, ← Cursor.advance_behind]
    rfl
  · rwa [htext]
  · rwa [← String.length_toList, htext]

/-- One token for each of some blanks in front. -/
theorem blanksAt : ∀ {front run rest : List Char}, (∀ c ∈ run, Text.isBlankChar c = true) →
    CutFrom false (front ++ run) rest ts failure →
    CutFrom false front (run ++ rest) (blanksAt (.name "WS") (.behind front) run ++ ts) failure
  | front, [], rest, _, h => by
    rw [List.append_nil] at h
    exact h
  | front, c :: run, rest, hrun, h => by
    obtain ⟨hc, hrun⟩ := List.forall_mem_cons.1 hrun
    have hpiece : IsPiece (.name "WS") [c] := .blanks (List.cons_ne_nil c []) (by simpa using hc)
    rw [List.append_cons] at h
    rw [Offside.blanksAt, ← Cursor.behind_append_step]
    exact cons hpiece (fun h => absurd h (by decide)) (fun _ => rfl) (blanksAt hrun h)

end CutFrom

/-- What a scanner that keeps blanks makes of a text behind another one, where no word and no run of blanks goes on
across the two. -/
theorem cutFrom_scan {v : Variant} (hv : v ≠ .ignore) {cs : List Char} (h : Pieces Scanner.isWordChar cs) :
    ∀ front, Parted Scanner.isWordChar front cs → Parted Text.isBlankChar front cs → ∃ ts failure,
      v.scanner.scanFrom (.behind front) cs = Source.ofTokensUntil ts failure ∧
        CutFrom (v == .space) front cs ts failure := by
  induction h with
  | nil =>
    intro front _ _
    refine ⟨[], none, ?_, .done front⟩
    rw [Scanner.scanFrom]
    rfl
  | @stray rest hrest =>
    intro front _ _
    exact ⟨[], _, Scanner.scan_stray hrest _, .stray hrest⟩
  | @newline text rest htext _ ih =>
    intro front _ _
    have hends : text ≠ [] ∧ (∀ c ∈ text, Scanner.isWordChar c = false) ∧ ∀ c ∈ text, Text.isBlankChar c = false := by
      rcases htext with rfl | rfl <;> simp [Scanner.isWordChar, Text.isBlankChar]
    obtain ⟨ts, failure, hscan, hcut⟩ := ih (front ++ text) (.behind hends.1 hends.2.1) (.behind hends.1 hends.2.2)
    refine ⟨_, failure, ?_, hcut.cons (.newline htext) (fun h => absurd h (by decide)) fun h => absurd h (by decide)⟩
    rw [Scanner.scan_newline htext, Cursor.advance_behind, hscan]
    rfl
  | @word c more rest hblank hline hmore hrest _ ih =>
    intro front hword _
    have hc := Scanner.isWordChar_of_not_blank hblank hline
    have hall : ∀ d ∈ c :: more, Scanner.isWordChar d = true := List.forall_mem_cons.2 ⟨hc, hmore⟩
    have hne : c :: more ≠ [] := List.cons_ne_nil c more
    obtain ⟨ts, failure, hscan, hcut⟩ := ih (front ++ c :: more) (.before hrest)
      (.behind hne fun d hd => Scanner.not_blank_of_isWordChar (hall d hd))
    refine ⟨_, failure, ?_, hcut.cons (.word hne hall) (fun _ => hword.standalone hc hrest) fun h =>
      absurd h (by decide)⟩
    rw [Scanner.scan_word hblank hline hmore hrest, Cursor.advance_behind, hscan]
    rfl
  | @blanks run rest hne hrun hrest _ ih =>
    intro front _ hblank
    have hword : ∀ c ∈ run, Scanner.isWordChar c = false := by
      intro c hc
      simp [Scanner.isWordChar, hrun c hc]
    obtain ⟨ts, failure, hscan, hcut⟩ := ih (front ++ run) (.behind hne hword) (.before hrest)
    cases v with
    | space =>
      obtain ⟨c, more, rfl⟩ := List.exists_cons_of_ne_nil hne
      have hstands := hblank.standalone (hrun c List.mem_cons_self) hrest
      refine ⟨_, failure, ?_, hcut.cons (.blanks hne hrun) (fun h => absurd h (by decide)) fun _ => ?_⟩
      · rw [Scanner.scan_run rfl hne hrun hrest, Cursor.advance_behind, hscan]
        rfl
      · exact hstands
    | spaces =>
      refine ⟨_, failure, ?_, hcut.blanksAt hrun⟩
      rw [Scanner.scan_blanks rfl rfl hrun, Cursor.advance_behind, hscan, Source.ofTokens_append_until]
      rfl
    | ignore => exact absurd rfl hv

/-- **A scanner tiles a text with tokens that stand where the text in front of them says**, up to the end of the text or
to its first stray carriage return, and there is a fault in that case alone, which names the place.  A word is as long
as it gets, and so is a run of blanks, unless each blank is a token of its own.  Without the tokens of blanks, these are
the tokens of the scanner that drops blanks, with the same fault. -/
theorem scan_places (v : Variant) (hv : v ≠ .ignore) (text : String) : ∃ ts failure rest,
    v.scanner.scan text = Source.ofTokensUntil ts failure ∧
      text.toList = charsOf ts ++ rest ∧ Text.hasStray (charsOf ts) = false ∧
      (failure = none ∧ rest = [] ∨ ∃ more, rest = '\r' :: more ∧ more.head? ≠ some '\n' ∧
        failure = some (Cursor.behind (charsOf ts)).stray) ∧
      (∀ before t after, ts = before ++ t :: after →
        t.IsCut (v == .space) (charsOf before) (charsOf after ++ rest)) ∧
      Variant.ignore.scanner.scan text = Source.ofTokensUntil (dropBlanks ts) failure := by
  have hpieces := pieces Scanner.isWordChar text.toList
  obtain ⟨ts, failure, hscan, hcut⟩ := cutFrom_scan hv hpieces [] (.start _) (.start _)
  obtain ⟨rest, hrest, hclean, hends⟩ := hcut.tiles
  refine ⟨ts, failure, rest, hscan, hrest, hclean, hends, fun _ _ _ heq => hcut.isCut hrest heq, ?_⟩
  obtain ⟨us, failure', hscanned⟩ := scan_variants hpieces (.behind [])
  cases v with
  | space =>
    obtain ⟨rfl, rfl⟩ := Source.ofTokensUntil_inj (hscan.symm.trans hscanned.space)
    rw [dropBlanks_mergeBlanks]
    exact hscanned.ignore
  | spaces =>
    obtain ⟨rfl, rfl⟩ := Source.ofTokensUntil_inj (hscan.symm.trans hscanned.spaces)
    exact hscanned.ignore
  | ignore => exact absurd rfl hv

/-- Two lines, the second of them with a carriage return that no line feed follows. -/
theorem scan_places_stray :
    let blanks := tokenAt (.name "WS") ⟨2, 1, 3⟩ [' ', '\t']
    Variant.space ≠ .ignore ∧ blanks.IsCut true ['a', 'b'] ['\r', '\n', 'c', '\r', 'd'] ∧
      Variant.ignore.scanner.scan "ab \t\r\nc\rd" = Source.ofTokensUntil
        [tokenAt (.name "WORD") ⟨0, 1, 1⟩ ['a', 'b'], tokenAt (.name "NL") ⟨4, 1, 5⟩ ['\r', '\n'],
          tokenAt (.name "WORD") ⟨6, 2, 1⟩ ['c']] (some (Cursor.stray ⟨7, 2, 2⟩)) := by
  intro blanks
  obtain ⟨ts, failure, rest, hscan, htext, -, -, hcut, hignore⟩ :=
    scan_places .space (by decide) "ab \t\r\nc\rd"
  have hexpected : Variant.space.scanner.scan "ab \t\r\nc\rd" = Source.ofTokensUntil
      [tokenAt (.name "WORD") ⟨0, 1, 1⟩ ['a', 'b'], blanks, tokenAt (.name "NL") ⟨4, 1, 5⟩ ['\r', '\n'],
        tokenAt (.name "WORD") ⟨6, 2, 1⟩ ['c']] (some (Cursor.stray ⟨7, 2, 2⟩)) := by decide +kernel
  obtain ⟨rfl, rfl⟩ := Source.ofTokensUntil_inj (hscan.symm.trans hexpected)
  have hrest : rest = ['\r', 'd'] := List.append_cancel_left (htext.symm.trans (by decide +kernel))
  subst hrest
  exact ⟨by decide, hcut [tokenAt (.name "WORD") ⟨0, 1, 1⟩ ['a', 'b']] blanks _ rfl, hignore⟩

end Offside
