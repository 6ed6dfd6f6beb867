import Offside.Proofs.Scanner.Pieces
/-!
# The variants of the word scanner

The three variants cut a text into the same words and line breaks, at the same places, and fail at the same stray
carriage return.  What one of them gives as a token for each blank, another one gives as one token for a run of blanks,
and the third one leaves out (`scan_variants`).  The tokens of the former two lie side by side in the text (`Tiled`).
-/
namespace Offside

/-- A token of blanks, as the word scanners give them. -/
def Token.isBlank (t : Token) : Bool :=
  t.type == .name "WS"

/-- One token in place of a token and those behind it: all their values, from where the first starts to where the last
stops. -/
def Token.joined (t : Token) (ts : List Token) : Token :=
  { t with value := String.join ((t :: ts).map Token.value), stop := (ts.getLast?.getD t).stop }

/-- Tokens with every run of blanks made into one token. -/
def mergeBlanks : List Token → List Token
  | [] => []
  | t :: ts =>
    if t.isBlank = true then t.joined (ts.takeWhile Token.isBlank) :: mergeBlanks (ts.dropWhile Token.isBlank)
    else t :: mergeBlanks ts
termination_by ts => ts.length
decreasing_by
  · exact Nat.lt_succ_of_le (List.dropWhile_sublist Token.isBlank).length_le
  · exact Nat.lt_succ_self _

def dropBlanks (ts : List Token) : List Token :=
  ts.filter (fun t => !t.isBlank)

theorem mergeBlanks_cons {t : Token} (ht : t.isBlank = false) (ts : List Token) :
    mergeBlanks (t :: ts) = t :: mergeBlanks ts := by
  rw [mergeBlanks, ht, if_neg Bool.false_ne_true]

theorem mergeBlanks_run {t : Token} {run rest : List Token} (hrun : ∀ u ∈ t :: run, u.isBlank = true)
    (hrest : ∀ u ∈ rest.head?, u.isBlank = false) :
    mergeBlanks (t :: run ++ rest) = t.joined run :: mergeBlanks rest := by
  obtain ⟨ht, hrun⟩ := List.forall_mem_cons.1 hrun
  rw [List.cons_append, mergeBlanks, if_pos ht, takeWhile_append hrest, dropWhile_append hrest,
    List.takeWhile_eq_self_iff.2 hrun, List.dropWhile_eq_nil_iff.2 hrun, List.nil_append]

theorem mergeBlanks_blanks {t : Token} {run : List Token} (hrun : ∀ u ∈ t :: run, u.isBlank = true) :
    mergeBlanks (t :: run) = [t.joined run] := by
  have hmerge : mergeBlanks (t :: run ++ []) = t.joined run :: mergeBlanks [] := mergeBlanks_run hrun (by simp)
  rwa [List.append_nil, mergeBlanks] at hmerge

theorem dropBlanks_cons {t : Token} (ht : t.isBlank = false) (ts : List Token) :
    dropBlanks (t :: ts) = t :: dropBlanks ts :=
  List.filter_cons_of_pos (by simp [ht])

theorem dropBlanks_run {run : List Token} (hrun : ∀ t ∈ run, t.isBlank = true) (ts : List Token) :
    dropBlanks (run ++ ts) = dropBlanks ts := by
  rw [dropBlanks, List.filter_append, List.filter_eq_nil_iff.2 fun t ht => by simp [hrun t ht]]
  rfl

theorem dropBlanks_mergeBlanks (ts : List Token) : dropBlanks (mergeBlanks ts) = dropBlanks ts := by
  fun_induction mergeBlanks ts with
  | case1 => rfl
  | case2 t ts ht ih =>
    have hjoined : (t.joined (ts.takeWhile Token.isBlank)).isBlank = true := ht
    have hrun : ∀ u ∈ t :: ts.takeWhile Token.isBlank, u.isBlank = true :=
      List.forall_mem_cons.2 ⟨ht, fun _ => List.mem_takeWhile_imp⟩
    have hsplit : t :: ts = (t :: ts.takeWhile Token.isBlank) ++ ts.dropWhile Token.isBlank := by
      rw [List.cons_append, List.takeWhile_append_dropWhile]
    rw [hsplit, dropBlanks_run hrun, ← ih]
    have hone : ∀ u ∈ [t.joined (ts.takeWhile Token.isBlank)], u.isBlank = true := by simpa using hjoined
    exact dropBlanks_run hone _
  | case3 t ts ht ih =>
    have ht : t.isBlank = false := Bool.eq_false_iff.2 ht
    rw [dropBlanks_cons ht, dropBlanks_cons ht, ih]

/-! ## Tokens side by side -/

/-- A piece of a text with the type that the word scanners give it. -/
inductive IsPiece : TokenType → List Char → Prop where
  | word {text : List Char} (hne : text ≠ []) (h : ∀ c ∈ text, Scanner.isWordChar c = true) :
      IsPiece (.name "WORD") text
  | blanks {text : List Char} (hne : text ≠ []) (h : ∀ c ∈ text, Text.isBlankChar c = true) : IsPiece (.name "WS") text
  | newline {text : List Char} (h : text = ['\n'] ∨ text = ['\r', '\n']) : IsPiece (.name "NL") text

theorem IsPiece.isSingle {type : TokenType} {text : List Char} (h : IsPiece type text) : type.isSingle = true := by
  cases h <;> rfl

/-- Tokens that lie side by side from a cursor on. -/
inductive Tiled : Cursor → List Token → Prop where
  | nil (pos : Cursor) : Tiled pos []
  | cons {pos : Cursor} {type : TokenType} {text : List Char} {ts : List Token} (h : IsPiece type text)
      (hts : Tiled (pos.advance text) ts) : Tiled pos (tokenAt type pos text :: ts)

theorem Tiled.isScanned {pos : Cursor} {ts : List Token} (h : Tiled pos ts) : ∀ t ∈ ts, t.IsScanned := by
  induction h with
  | nil => simp
  | cons hpiece _ ih => exact List.forall_mem_cons.2 ⟨⟨rfl, hpiece.isSingle, .inr ⟨_, rfl⟩⟩, ih⟩

/-! ## Runs of blanks -/

theorem isBlank_blanksAt : ∀ (pos : Cursor) (run : List Char), ∀ t ∈ blanksAt (.name "WS") pos run, t.isBlank = true
  | _, [] => by simp [blanksAt]
  | pos, c :: run => List.forall_mem_cons.2 ⟨rfl, isBlank_blanksAt (pos.step c) run⟩

theorem join_blanksAt (type : TokenType) : ∀ (pos : Cursor) (run : List Char),
    String.join ((blanksAt type pos run).map Token.value) = String.ofList run
  | _, [] => rfl
  | pos, c :: run => by
    rw [blanksAt, List.map_cons, String.join_cons, join_blanksAt type (pos.step c) run]
    have happend : String.ofList ([c] ++ run) = String.ofList [c] ++ String.ofList run := String.ofList_append
    exact happend.symm

theorem stop_blanksAt (type : TokenType) : ∀ (pos : Cursor) (run : List Char) (t : Token), t.stop = pos.place →
    ((blanksAt type pos run).getLast?.getD t).stop = (pos.advance run).place
  | _, [], _, ht => ht
  | pos, c :: run, t, _ => by
    rw [blanksAt, List.getLast?_cons, Option.getD_some]
    exact stop_blanksAt type (pos.step c) run _ rfl

theorem joined_blanksAt (type : TokenType) (pos : Cursor) (c : Char) (run : List Char) :
    (tokenAt type pos [c]).joined (blanksAt type (pos.step c) run) = tokenAt type pos (c :: run) := by
  have hvalue := join_blanksAt type pos (c :: run)
  have hstop := stop_blanksAt type (pos.step c) run (tokenAt type pos [c]) rfl
  rw [blanksAt] at hvalue
  rw [Token.joined, hvalue, hstop]
  rfl

theorem Tiled.blanksAt {ts : List Token} : ∀ {pos : Cursor} {run : List Char},
    (∀ c ∈ run, Text.isBlankChar c = true) → Tiled (pos.advance run) ts →
    Tiled pos (blanksAt (.name "WS") pos run ++ ts)
  | _, [], _, h => h
  | pos, c :: run, hrun, h => by
    obtain ⟨hc, hrun⟩ := List.forall_mem_cons.1 hrun
    exact .cons (.blanks (List.cons_ne_nil c []) (by simpa using hc)) (Tiled.blanksAt hrun h)

/-! ## Scanning -/

theorem Source.ofTokens_append_until (ts us : List Token) (failure : Option Fault) :
    Source.ofTokensUntil (ts ++ us) failure = Source.ofTokens ts ++ Source.ofTokensUntil us failure := by
  simp [Source.ofTokensUntil, Source.ofTokens]

theorem Source.ofTokensUntil_inj {failure failure' : Option Fault} : ∀ {ts us : List Token},
    Source.ofTokensUntil ts failure = Source.ofTokensUntil us failure' → ts = us ∧ failure = failure'
  | [], [], h => by
    cases failure <;> cases failure' <;> simp_all [ofTokensUntil, ofTokens]
  | [], _ :: _, h => by cases failure <;> cases h
  | _ :: _, [], h => by cases failure' <;> cases h
  | t :: ts, u :: us, h => by
    obtain ⟨htu, hrest⟩ := List.cons.inj h
    obtain ⟨rfl, rfl⟩ := ofTokensUntil_inj hrest
    exact ⟨congrArg (· :: ts) (Reply.token.inj htu), rfl⟩

/-- How the variants see a text from a cursor on, where one of them sees some tokens and then perhaps a fault. -/
structure ScannedAlike (pos : Cursor) (cs : List Char) (ts : List Token) (failure : Option Fault) : Prop where
  spaces : Variant.spaces.scanner.scanFrom pos cs = Source.ofTokensUntil ts failure
  space : Variant.space.scanner.scanFrom pos cs = Source.ofTokensUntil (mergeBlanks ts) failure
  ignore : Variant.ignore.scanner.scanFrom pos cs = Source.ofTokensUntil (dropBlanks ts) failure
  tiled : Tiled pos ts
  merged : Tiled pos (mergeBlanks ts)
  stray : ∀ f ∈ failure, ∃ place, f = .stray place
  front : (∀ c ∈ cs.head?, Text.isBlankChar c = false) → ∀ t ∈ ts.head?, t.isBlank = false

namespace ScannedAlike

variable {pos : Cursor} {rest : List Char} {ts : List Token} {failure : Option Fault}

/-- A piece that all variants give as the same token. -/
theorem cons {type : TokenType} {text : List Char} (hpiece : IsPiece type text)
    (htype : (tokenAt type pos text).isBlank = false)
    (hscan : ∀ v : Variant, v.scanner.scanFrom pos (text ++ rest) =
      .token (tokenAt type pos text) :: v.scanner.scanFrom (pos.advance text) rest)
    (h : ScannedAlike (pos.advance text) rest ts failure) :
    ScannedAlike pos (text ++ rest) (tokenAt type pos text :: ts) failure where
  spaces := by rw [hscan, h.spaces]; rfl
  space := by rw [hscan, h.space, mergeBlanks_cons htype]; rfl
  ignore := by rw [hscan, h.ignore, dropBlanks_cons htype]; rfl
  tiled := .cons hpiece h.tiled
  merged := by
    rw [mergeBlanks_cons htype]
    exact .cons hpiece h.merged
  stray := h.stray
  front := by simp [htype]

theorem blanks {run : List Char} (hne : run ≠ []) (hrun : ∀ c ∈ run, Text.isBlankChar c = true)
    (hrest : ∀ c ∈ rest.head?, Text.isBlankChar c = false) (h : ScannedAlike (pos.advance run) rest ts failure) :
    ScannedAlike pos (run ++ rest) (blanksAt (.name "WS") pos run ++ ts) failure := by
  obtain ⟨c, more, rfl⟩ := List.exists_cons_of_ne_nil hne
  have hblanks := isBlank_blanksAt pos (c :: more)
  have hmerge : mergeBlanks (blanksAt (.name "WS") pos (c :: more) ++ ts) =
      tokenAt (.name "WS") pos (c :: more) :: mergeBlanks ts := by
    rw [blanksAt] at hblanks ⊢
    rw [mergeBlanks_run hblanks (h.front hrest), joined_blanksAt]
  refine ⟨?_, ?_, ?_, h.tiled.blanksAt hrun, ?_, h.stray, ?_⟩
  · rw [Scanner.scan_blanks rfl rfl hrun, h.spaces, Source.ofTokens_append_until]
    rfl
  · rw [Scanner.scan_run rfl hne hrun hrest, h.space, hmerge]
    rfl
  · rw [Scanner.scan_run rfl hne hrun hrest, h.ignore, dropBlanks_run hblanks]
    rfl
  · rw [hmerge]
    exact .cons (.blanks hne hrun) h.merged
  · intro hfront
    have hc := hrun c List.mem_cons_self
    rw [hfront c rfl] at hc
    cases hc

end ScannedAlike

theorem Scanner.isWordChar_of_not_blank {c : Char} (hblank : Text.isBlankChar c = false)
    (hline : isLineChar c = true) : isWordChar c = true := by
  simpa [isWordChar, isLineChar, hblank] using hline

theorem Scanner.not_blank_of_isWordChar {c : Char} (h : isWordChar c = true) : Text.isBlankChar c = false := by
  simp only [isWordChar, Bool.and_eq_true] at h
  simpa using h.1.1

/-- **All variants see the same text.** -/
theorem scan_variants {cs : List Char} (h : Pieces Scanner.isWordChar cs) : ∀ pos, ∃ ts failure,
    ScannedAlike pos cs ts failure := by
  induction h with
  | nil =>
    intro pos
    refine ⟨[], none, ?_, ?_, ?_, .nil pos, ?_, by simp, by simp⟩
    · rw [Scanner.scanFrom]
      rfl
    · rw [Scanner.scanFrom, mergeBlanks]
      rfl
    · rw [Scanner.scanFrom]
      rfl
    · rw [mergeBlanks]
      exact .nil pos
  | @blanks run rest hne hrun hrest _ ih =>
    intro pos
    obtain ⟨ts, failure, h⟩ := ih (pos.advance run)
    exact ⟨_, failure, h.blanks hne hrun hrest⟩
  | @newline text rest htext _ ih =>
    intro pos
    obtain ⟨ts, failure, h⟩ := ih (pos.advance text)
    exact ⟨_, failure, h.cons (.newline htext) rfl fun _ => Scanner.scan_newline htext pos⟩
  | @stray rest hrest =>
    intro pos
    let f : Fault := .stray ⟨pos.offset, pos.line, pos.column⟩
    refine ⟨[], some f, ?_, ?_, ?_, .nil pos, ?_, fun g hg => ⟨_, (Option.some.inj hg).symm⟩, by simp⟩
    · exact Scanner.scan_stray hrest pos
    · rw [mergeBlanks]
      exact Scanner.scan_stray hrest pos
    · exact Scanner.scan_stray hrest pos
    · rw [mergeBlanks]
      exact .nil pos
  | @word c more rest hblank hline hmore hrest _ ih =>
    intro pos
    obtain ⟨ts, failure, h⟩ := ih (pos.advance (c :: more))
    have hword : ∀ d ∈ c :: more, Scanner.isWordChar d = true :=
      List.forall_mem_cons.2 ⟨Scanner.isWordChar_of_not_blank hblank hline, hmore⟩
    exact ⟨_, failure, h.cons (.word (List.cons_ne_nil c more) hword) rfl fun _ =>
      Scanner.scan_word hblank hline hmore hrest pos⟩

/-- The tokens of a variant that keeps blanks lie side by side. -/
theorem exists_tiled {v : Variant} (hv : v ≠ .ignore) (cs : List Char) : ∃ ts failure,
    Tiled .start ts ∧ v.scanner.scanFrom .start cs = Source.ofTokensUntil ts failure := by
  obtain ⟨us, failure, hs⟩ := scan_variants (pieces Scanner.isWordChar cs) .start
  cases v with
  | spaces => exact ⟨us, failure, hs.tiled, hs.spaces⟩
  | space => exact ⟨mergeBlanks us, failure, hs.merged, hs.space⟩
  | ignore => exact absurd rfl hv

end Offside
