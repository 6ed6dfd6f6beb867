import Offside.Outline.Document
import Offside.Proofs.Stream.Variants
/-!
# Lines and words of a text

Where the line scanner sees a line, the word scanner without blanks sees words, the first of them where the line begins;
line breaks and stray carriage returns are the same to both (`scan_lines`).  So lines begin at the same places for the
two, and land alike (`Paired.landings`).
-/
namespace Offside

/-- A token of some type that carries no indentation. -/
structure IsPlain (type : TokenType) (t : Token) : Prop where
  type : t.type = type
  scanned : t.IsScanned
  carried : t.carriedIndent = 0

theorem isPlain_tokenAt (name : String) (pos : Cursor) {text : List Char} (h : Text.trailingIndent text = []) :
    IsPlain (.name name) (tokenAt (.name name) pos text) := by
  refine ⟨rfl, ⟨rfl, rfl, .inr ⟨_, rfl⟩⟩, ?_⟩
  rw [Token.carriedIndent, tokenAt, String.toList_ofList, h]
  rfl

theorem trailingIndent_newline {text : List Char} (h : text = ['\n'] ∨ text = ['\r', '\n']) :
    Text.trailingIndent text = [] := by
  rcases h with rfl | rfl <;> rfl

theorem head_append {α : Type} {p : α → Bool} {xs ys : List α} (hx : ∀ x ∈ xs.head?, p x = false)
    (hy : ∀ y ∈ ys.head?, p y = false) : ∀ z ∈ (xs ++ ys).head?, p z = false := by
  cases xs with
  | nil => exact hy
  | cons x xs => exact hx

/-- What ends a line ends a run of blanks and a word. -/
theorem Scanner.ends_of_not_line {c : Char} (h : isLineChar c = false) :
    Text.isBlankChar c = false ∧ isWordChar c = false := by
  have hc : c = '\r' ∨ c = '\n' := by
    by_contra hne
    push Not at hne
    simp [isLineChar, hne] at h
  rcases hc with rfl | rfl
  · exact ⟨rfl, rfl⟩
  · exact ⟨rfl, rfl⟩

namespace Outline

/-- A token as the line scanner makes it. -/
def IsLineOrBreak (t : Token) : Prop :=
  IsPlain (.name "_NL") t ∨ IsPlain (.name "LINE") t ∧ Text.isBlank t.value.toList = false

/-- The tokens of the same text for the line scanner and for the word scanner without blanks. -/
inductive Paired : List Token → List Token → Prop where
  | nil : Paired [] []
  | newline {n n' : Token} {ls ws : List Token} (hn : IsPlain (.name "_NL") n) (hn' : IsPlain (.name "NL") n')
      (h : Paired ls ws) : Paired (n :: ls) (n' :: ws)
  | line {t u : Token} {more ls ws : List Token} (ht : IsPlain (.name "LINE") t)
      (hblank : Text.isBlank t.value.toList = false) (hwords : ∀ w ∈ u :: more, IsPlain (.name "WORD") w)
      (hstart : t.start = u.start) (h : Paired ls ws) : Paired (t :: ls) (u :: more ++ ws)

/-! ## Scanning -/

theorem scan_words {cs : List Char} (h : Pieces Scanner.isWordChar cs) (hline : ∀ c ∈ cs, Scanner.isLineChar c = true)
    {rest : List Char} (hrest : ∀ c ∈ rest.head?, Scanner.isLineChar c = false) : ∀ pos, ∃ words,
      Variant.ignore.scanner.scanFrom pos (cs ++ rest) =
        Source.ofTokens words ++ Variant.ignore.scanner.scanFrom (pos.advance cs) rest ∧
      (∀ w ∈ words, IsPlain (.name "WORD") w) ∧
      ((∃ c ∈ cs.head?, Text.isBlankChar c = false) → ∃ u more, words = u :: more ∧ u.start = pos.place) := by
  have hblankrest : ∀ c ∈ rest.head?, Text.isBlankChar c = false := fun c hc =>
    (Scanner.ends_of_not_line (hrest c hc)).1
  have hwordrest : ∀ c ∈ rest.head?, Scanner.isWordChar c = false := fun c hc =>
    (Scanner.ends_of_not_line (hrest c hc)).2
  induction h with
  | nil => exact fun pos => ⟨[], rfl, by simp, by simp⟩
  | @blanks run rest' hne hrun hnext _ ih =>
    intro pos
    have hline' : ∀ c ∈ rest', Scanner.isLineChar c = true := fun c hc => hline c (List.mem_append_right _ hc)
    obtain ⟨words, hscan, hplain, -⟩ := ih hline' (pos.advance run)
    refine ⟨words, ?_, hplain, ?_⟩
    · rw [List.append_assoc, Scanner.scan_run rfl hne hrun (head_append hnext hblankrest), hscan, Cursor.advance_append]
      rfl
    · rintro ⟨c, hc, hblank⟩
      obtain ⟨d, more, rfl⟩ := List.exists_cons_of_ne_nil hne
      obtain rfl : d = c := Option.some.inj hc
      rw [hrun d List.mem_cons_self] at hblank
      cases hblank
  -- a line break or a stray return does not stand inside a line
  | @newline text rest' htext _ _ =>
    have : Scanner.isLineChar '\n' = true := hline '\n' (by rcases htext with rfl | rfl <;> simp)
    cases this
  | stray =>
    have : Scanner.isLineChar '\r' = true := hline '\r' (by simp)
    cases this
  | @word c more rest' hblank hc hmore hnext _ ih =>
    intro pos
    have hline' : ∀ c ∈ rest', Scanner.isLineChar c = true := fun c hc => hline c (List.mem_append_right _ hc)
    obtain ⟨words, hscan, hplain, -⟩ := ih hline' (pos.advance (c :: more))
    have hword : '\n' ∉ c :: more := fun h => Bool.false_ne_true (hline '\n' (List.mem_append_left _ h))
    refine ⟨tokenAt (.name "WORD") pos (c :: more) :: words, ?_, List.forall_mem_cons.2 ⟨?_, hplain⟩, fun _ => ?_⟩
    · rw [List.append_assoc, Scanner.scan_word hblank hc hmore (head_append hnext hwordrest), hscan,
        Cursor.advance_append]
      rfl
    · exact isPlain_tokenAt _ pos (Text.trailingIndent_of_not_mem hword)
    · exact ⟨_, words, rfl, rfl⟩

/-- How the two scanners see a text from a cursor on. -/
structure ReadAlike (pos : Cursor) (cs : List Char) (ls ws : List Token) (failure : Option Fault) : Prop where
  lines : scanner.scanFrom pos cs = Source.ofTokensUntil ls failure
  words : Variant.ignore.scanner.scanFrom pos cs = Source.ofTokensUntil ws failure
  paired : Paired ls ws
  stray : ∀ f ∈ failure, ∃ place, f = .stray place

theorem scan_lines {cs : List Char} (h : Pieces Scanner.isLineChar cs) : ∀ pos, ∃ ls ws failure,
    ReadAlike pos cs ls ws failure := by
  induction h with
  | nil =>
    intro pos
    refine ⟨[], [], none, ?_, ?_, .nil, by simp⟩
    · rw [Scanner.scanFrom]
      rfl
    · rw [Scanner.scanFrom]
      rfl
  | @blanks run rest hne hrun hrest _ ih =>
    intro pos
    obtain ⟨ls, ws, failure, h⟩ := ih (pos.advance run)
    refine ⟨ls, ws, failure, ?_, ?_, h.paired, h.stray⟩
    · rw [Scanner.scan_run rfl hne hrun hrest, h.lines]
      rfl
    · rw [Scanner.scan_run rfl hne hrun hrest, h.words]
      rfl
  | @newline text rest htext _ ih =>
    intro pos
    obtain ⟨ls, ws, failure, h⟩ := ih (pos.advance text)
    have hcarried := trailingIndent_newline htext
    refine ⟨_, _, failure, ?_, ?_, .newline (isPlain_tokenAt _ pos hcarried) (isPlain_tokenAt _ pos hcarried) h.paired,
      h.stray⟩
    · rw [Scanner.scan_newline htext, h.lines]
      rfl
    · rw [Scanner.scan_newline htext, h.words]
      rfl
  | @stray rest hrest =>
    intro pos
    let f : Fault := .stray ⟨pos.offset, pos.line, pos.column⟩
    exact ⟨[], [], some f, Scanner.scan_stray hrest pos, Scanner.scan_stray hrest pos, .nil,
      fun g hg => ⟨_, (Option.some.inj hg).symm⟩⟩
  | @word c more rest hblank hline hmore hrest _ ih =>
    intro pos
    obtain ⟨ls, ws, failure, h⟩ := ih (pos.advance (c :: more))
    have hall : ∀ d ∈ c :: more, Scanner.isLineChar d = true := List.forall_mem_cons.2 ⟨hline, hmore⟩
    obtain ⟨words, hscan, hplain, hfirst⟩ := scan_words (pieces _ (c :: more)) hall hrest pos
    obtain ⟨u, others, rfl, hstart⟩ := hfirst ⟨c, rfl, hblank⟩
    have hbreak : '\n' ∉ c :: more := fun h => Bool.false_ne_true (hall '\n' h)
    have hcontent : Text.isBlank (tokenAt (.name "LINE") pos (c :: more)).value.toList = false := by
      rw [tokenAt, String.toList_ofList, Text.isBlank, List.all_cons, hblank]
      simp
    refine ⟨_, _, failure, ?_, ?_, .line (isPlain_tokenAt _ pos (Text.trailingIndent_of_not_mem hbreak)) hcontent hplain
      hstart.symm h.paired, h.stray⟩
    · rw [Scanner.scan_word hblank hline hmore hrest, h.lines]
      rfl
    · rw [hscan, h.words, Source.ofTokens_append_until]

/-! ## Where the lines begin -/

theorem classify_newline_line {t : Token} (h : IsPlain (.name "_NL") t) (unit : Nat) :
    (config unit).classify t = .newline := by
  rw [Config.classify_eq_newline, h.type]
  rfl

theorem classify_content_line {t : Token} (h : IsPlain (.name "LINE") t) (hblank : Text.isBlank t.value.toList = false)
    (unit : Nat) : (config unit).classify t = .other := by
  have hkey : t.type.key ≠ (config unit).kinds.newline.key := by
    rw [h.type]
    show TokenType.Key.name "LINE" ≠ .name "_NL"
    decide
  rw [Config.classify, if_neg hkey, hblank]
  rfl

theorem classify_newline_word {t : Token} (h : IsPlain (.name "NL") t) (policy : Policy) (unit : Nat) :
    (wordConfig policy unit).classify t = .newline := by
  rw [Config.classify_eq_newline, h.type]
  rfl

theorem classify_content_word {t : Token} (h : IsPlain (.name "WORD") t) (policy : Policy) (unit : Nat) :
    (wordConfig policy unit).classify t = .other := by
  rw [Config.classify, h.type]
  rfl

namespace Paired

variable {ls ws : List Token}

theorem lines (h : Paired ls ws) : ∀ t ∈ ls, t.IsScanned ∧ t.carriedIndent = 0 ∧ IsLineOrBreak t := by
  induction h with
  | nil => simp
  | newline hn _ _ ih => exact List.forall_mem_cons.2 ⟨⟨hn.scanned, hn.carried, .inl hn⟩, ih⟩
  | line ht hblank _ _ _ ih => exact List.forall_mem_cons.2 ⟨⟨ht.scanned, ht.carried, .inr ⟨ht, hblank⟩⟩, ih⟩

theorem words (h : Paired ls ws) : ∀ t ∈ ws, IsPlain (.name "NL") t ∨ IsPlain (.name "WORD") t := by
  induction h with
  | nil => simp
  | newline _ hn' _ ih => exact List.forall_mem_cons.2 ⟨.inl hn', ih⟩
  | line _ _ hwords _ _ ih =>
    intro w hw
    rcases List.mem_append.1 hw with hw | hw
    · exact .inr (hwords w hw)
    · exact ih w hw

/-- Where words go on in a line, no line begins. -/
theorem lineStarts_words {more : List Token} (hmore : ∀ w ∈ more, IsPlain (.name "WORD") w) (policy : Policy)
    (unit : Nat) (ws : List Token) :
    lineStarts (wordConfig policy unit) false (more ++ ws) = lineStarts (wordConfig policy unit) false ws := by
  induction more with
  | nil => rfl
  | cons w more ih =>
    obtain ⟨hw, hmore⟩ := List.forall_mem_cons.1 hmore
    simp only [List.cons_append, Offside.lineStarts, classify_content_word hw, Bool.false_eq_true, if_false]
    exact ih hmore

/-- **Lines begin where their first words do.** -/
theorem lineStarts_alike (h : Paired ls ws) (unit : Nat) (policy : Policy) (unit' : Nat) : ∀ fresh,
    List.Forall₂ (Option.Rel fun t u => t.start = u.start) (lineStarts (config unit) fresh ls)
      (lineStarts (wordConfig policy unit') fresh ws) := by
  induction h with
  | nil =>
    intro fresh
    cases fresh with
    | false => exact .nil
    | true => exact .cons .none .nil
  | newline hn hn' _ ih =>
    intro fresh
    simp only [lineStarts, classify_newline_line hn, classify_newline_word hn']
    exact ih true
  | line ht hblank hwords hstart _ ih =>
    intro fresh
    obtain ⟨hu, hmore⟩ := List.forall_mem_cons.1 hwords
    simp only [List.cons_append, lineStarts, classify_content_line ht hblank, classify_content_word hu,
      lineStarts_words hmore]
    cases fresh with
    | false => exact ih false
    | true => exact .cons (.some hstart) (ih false)

/-- **Lines land where their first words do.** -/
theorem landings (h : Paired ls ws) (unit : Nat) (policy : Policy) (unit' : Nat) :
    List.Forall₂ (LandAlike fun t u => t.start = u.start)
      (landings (config unit) (segments (config unit) ls))
      (landings (wordConfig policy unit') (segments (wordConfig policy unit') ws)) := by
  have hlines : Measured (config unit) ls := by
    refine measured_of_no_whitespace (fun t ht => (h.lines t ht).2.1) fun t ht => ?_
    rcases (h.lines t ht).2.2 with hn | ⟨hl, hblank⟩
    · exact isWhitespace_of_newline (classify_newline_line hn unit)
    · rw [Config.isWhitespace, classify_content_line hl hblank]
      rfl
  have hwords : Measured (wordConfig policy unit') ws := by
    refine measured_of_no_whitespace (fun t ht => ?_) fun t ht => ?_
    · rcases h.words t ht with hn | hw
      · exact hn.carried
      · exact hw.carried
    · rcases h.words t ht with hn | hw
      · exact isWhitespace_of_newline (classify_newline_word hn policy unit')
      · rw [Config.isWhitespace, classify_content_word hw]
        rfl
  rw [landings_of_measured _ _ hlines, landings_of_measured _ _ hwords, List.forall₂_map_left_iff,
    List.forall₂_map_right_iff]
  refine (h.lineStarts_alike unit policy unit' false).imp fun c c' hc => ?_
  cases hc with
  | none => exact ⟨rfl, .none⟩
  | some hstart =>
    refine ⟨?_, .some hstart⟩
    simp only [Landing.ofStart, Option.elim_some, Token.columnsBefore, hstart]

end Paired
end Outline
end Offside
