import Offside.Proofs.Cuts
import Offside.Proofs.Outline.Lines
/-!
# The pieces of a text

A text falls into runs of blanks, words and line breaks, up to a stray carriage return if it holds one (`Pieces`).  A
word goes on as long as a scanner says, and the pieces are the lexemes of that scanner: here is what any scanner makes of
each of them.
-/
namespace Offside

/-- The pieces that a text falls into, where `inWord` says what goes on inside a word. -/
inductive Pieces (inWord : Char → Bool) : List Char → Prop where
  | nil : Pieces inWord []
  | blanks {run rest : List Char} (hne : run ≠ []) (hrun : ∀ c ∈ run, Text.isBlankChar c = true)
      (hrest : ∀ c ∈ rest.head?, Text.isBlankChar c = false) (h : Pieces inWord rest) : Pieces inWord (run ++ rest)
  | newline {text rest : List Char} (htext : text = ['\n'] ∨ text = ['\r', '\n']) (h : Pieces inWord rest) :
      Pieces inWord (text ++ rest)
  | stray {rest : List Char} (hrest : rest.head? ≠ some '\n') : Pieces inWord ('\r' :: rest)
  | word {c : Char} {more rest : List Char} (hblank : Text.isBlankChar c = false) (hline : Scanner.isLineChar c = true)
      (hmore : ∀ c ∈ more, inWord c = true) (hrest : ∀ c ∈ rest.head?, inWord c = false) (h : Pieces inWord rest) :
      Pieces inWord (c :: more ++ rest)

theorem pieces (inWord : Char → Bool) (cs : List Char) : Pieces inWord cs := by
  -- on the length, since a piece is as long as it gets
  induction hn : cs.length using Nat.strong_induction_on generalizing cs with
  | _ n ih =>
    subst hn
    have hdrop (p : Char → Bool) (c : Char) (rest : List Char) : (rest.dropWhile p).length < (c :: rest).length :=
      Nat.lt_succ_of_le (List.dropWhile_sublist p).length_le
    cases cs with
    | nil => exact .nil
    | cons c rest =>
      by_cases hb : Text.isBlankChar c = true
      · have h : Pieces inWord (c :: rest.takeWhile Text.isBlankChar ++ rest.dropWhile Text.isBlankChar) :=
          .blanks (List.cons_ne_nil _ _) (List.forall_mem_cons.2 ⟨hb, fun _ => List.mem_takeWhile_imp⟩) (head_dropWhile _ rest)
            (ih _ (hdrop _ c rest) _ rfl)
        rwa [List.cons_append, List.takeWhile_append_dropWhile] at h
      · have hb : Text.isBlankChar c = false := Bool.eq_false_iff.2 hb
        by_cases hn : c = '\n'
        · subst hn
          have h : Pieces inWord (['\n'] ++ rest) := .newline (.inl rfl) (ih _ (Nat.lt_succ_self _) _ rfl)
          exact h
        · by_cases hr : c = '\r'
          · subst hr
            by_cases hrest : rest.head? = some '\n'
            · obtain ⟨more, rfl⟩ := List.head?_eq_some_iff.1 hrest
              have hshort : more.length < ('\r' :: '\n' :: more).length := by
                simp only [List.length_cons]
                omega
              have h : Pieces inWord (['\r', '\n'] ++ more) := .newline (.inr rfl) (ih _ hshort more rfl)
              exact h
            · exact .stray hrest
          · have hline : Scanner.isLineChar c = true := by simp [Scanner.isLineChar, hn, hr]
            have h : Pieces inWord (c :: rest.takeWhile inWord ++ rest.dropWhile inWord) :=
              .word hb hline (fun _ => List.mem_takeWhile_imp) (head_dropWhile _ rest) (ih _ (hdrop _ c rest) _ rfl)
            rwa [List.cons_append, List.takeWhile_append_dropWhile] at h

/-- The token of a piece of text at a cursor. -/
def tokenAt (type : TokenType) (pos : Cursor) (text : List Char) : Token :=
  { type, value := String.ofList text, start := pos.place, stop := (pos.advance text).place, level := none }

/-- The tokens of some blanks at a cursor, one for each. -/
def blanksAt (type : TokenType) : Cursor → List Char → List Token
  | _, [] => []
  | pos, c :: run => tokenAt type pos [c] :: blanksAt type (pos.step c) run

namespace Scanner

variable {sc : Scanner} {rest : List Char}

theorem scan_newline {text : List Char} (htext : text = ['\n'] ∨ text = ['\r', '\n']) (pos : Cursor) :
    sc.scanFrom pos (text ++ rest) =
      .token (tokenAt sc.newlineType pos text) :: sc.scanFrom (pos.advance text) rest := by
  rcases htext with rfl | rfl
  · exact scanFrom_of_lexeme (l := ⟨some sc.newlineType, ['\n']⟩) rfl pos
  · exact scanFrom_of_lexeme (l := ⟨some sc.newlineType, ['\r', '\n']⟩) rfl pos

theorem scan_stray (hrest : rest.head? ≠ some '\n') (pos : Cursor) :
    sc.scanFrom pos ('\r' :: rest) = [.fault (.stray ⟨pos.offset, pos.line, pos.column⟩)] := by
  refine scanFrom_of_stray ?_ pos
  have hblank : Text.isBlankChar '\r' = false := rfl
  unfold lexeme?
  rw [hblank, if_neg Bool.false_ne_true, if_neg (by decide), if_pos rfl]
  split
  · exact absurd rfl hrest
  · rfl

theorem scan_word {c : Char} {more : List Char} (hblank : Text.isBlankChar c = false) (hline : isLineChar c = true)
    (hmore : ∀ c ∈ more, sc.inWord c = true) (hrest : ∀ c ∈ rest.head?, sc.inWord c = false) (pos : Cursor) :
    sc.scanFrom pos (c :: more ++ rest) =
      .token (tokenAt sc.wordType pos (c :: more)) :: sc.scanFrom (pos.advance (c :: more)) rest := by
  obtain ⟨hr, hn⟩ : c ≠ '\r' ∧ c ≠ '\n' := by simpa [isLineChar] using hline
  have hlexeme : sc.lexeme? c (more ++ rest) = some (⟨some sc.wordType, c :: more⟩, rest) := by
    have htake : more.takeWhile sc.inWord = more := List.takeWhile_eq_self_iff.2 hmore
    have hdrop : more.dropWhile sc.inWord = [] := List.dropWhile_eq_nil_iff.2 hmore
    simp [lexeme?, hblank, hr, hn, takeWhile_append hrest, dropWhile_append hrest, htake, hdrop]
  exact scanFrom_of_lexeme hlexeme pos

theorem scan_run (hjoin : sc.joinBlanks = true) {run : List Char} (hne : run ≠ [])
    (hrun : ∀ c ∈ run, Text.isBlankChar c = true) (hrest : ∀ c ∈ rest.head?, Text.isBlankChar c = false)
    (pos : Cursor) : sc.scanFrom pos (run ++ rest) =
      (if sc.keepBlanks = true then [.token (tokenAt sc.blankType pos run)] else []) ++
        sc.scanFrom (pos.advance run) rest := by
  obtain ⟨c, run, rfl⟩ := List.exists_cons_of_ne_nil hne
  obtain ⟨hc, hrun⟩ := List.forall_mem_cons.1 hrun
  have hlexeme : sc.lexeme? c (run ++ rest) =
      some (⟨if sc.keepBlanks then some sc.blankType else none, c :: run⟩, rest) := by
    have htake : run.takeWhile Text.isBlankChar = run := List.takeWhile_eq_self_iff.2 hrun
    have hdrop : run.dropWhile Text.isBlankChar = [] := List.dropWhile_eq_nil_iff.2 hrun
    simp [lexeme?, hc, hjoin, takeWhile_append hrest, dropWhile_append hrest, htake, hdrop]
  rw [List.cons_append, scanFrom_of_lexeme hlexeme pos]
  by_cases hk : sc.keepBlanks = true
  · simp [hk, Lexeme.token?, tokenAt]
  · simp [hk, Lexeme.token?]

theorem scan_blanks (hjoin : sc.joinBlanks = false) (hkeep : sc.keepBlanks = true) : ∀ {run : List Char},
    (∀ c ∈ run, Text.isBlankChar c = true) → ∀ pos : Cursor, sc.scanFrom pos (run ++ rest) =
      Source.ofTokens (blanksAt sc.blankType pos run) ++ sc.scanFrom (pos.advance run) rest
  | [], _, _ => rfl
  | c :: run, hrun, pos => by
    obtain ⟨hc, hrun⟩ := List.forall_mem_cons.1 hrun
    have hlexeme : sc.lexeme? c (run ++ rest) = some (⟨some sc.blankType, [c]⟩, run ++ rest) := by
      simp [lexeme?, hc, hjoin, hkeep]
    have ih := scan_blanks hjoin hkeep hrun (pos.step c)
    rw [List.cons_append, scanFrom_of_lexeme hlexeme pos]
    exact congrArg (Reply.token (tokenAt sc.blankType pos [c]) :: ·) ih

/-- The tokens of a scanner are no markers, their types can be looked up, and they stand in columns that are integers. -/
theorem isScanned_of_mem_scanFrom (sc : Scanner) (pos : Cursor) (cs : List Char) :
    ∀ t, .token t ∈ sc.scanFrom pos cs → t.IsScanned := by
  fun_induction scanFrom sc pos cs with
  | case1 => simp
  | case2 => simp
  | case3 pos c rest l more hl stop ih =>
    intro t ht
    rcases List.mem_append.1 ht with ht | ht
    · cases htype : l.type with
      | none => simp [Lexeme.token?, htype] at ht
      | some type =>
        simp only [Lexeme.token?, htype, Option.map_some, Option.toList_some, List.mem_singleton] at ht
        obtain rfl := Reply.token.inj ht
        exact ⟨rfl, isSingle_of_lexeme? hl type htype, .inr ⟨_, rfl⟩⟩
    · exact ih t ht

theorem isScanned_of_scanFrom {pos : Cursor} {cs : List Char} {ts : List Token} {failure : Option Fault}
    (h : sc.scanFrom pos cs = Source.ofTokensUntil ts failure) : ∀ t ∈ ts, t.IsScanned := by
  intro t ht
  refine isScanned_of_mem_scanFrom sc pos cs t ?_
  rw [h]
  exact List.mem_append_left _ (List.mem_map_of_mem ht)

end Scanner
end Offside
