import Offside.Proofs.Scanner.Variants
/-!
# Slices of a text

The tokens of a text are slices of it, one behind the other (`Tiled.slices`).  Where a scanner keeps blanks and reads a
text to its end, nothing lies between the slices: put together they are the text (`Scanner.charsOf_scanFrom`).  Without
the tokens of blanks they are the text without its blanks, and without those that lines begin with, the text with its
lines moved to the left (`Text.outdent`).
-/
namespace Offside

/-- What some tokens say, one behind the other. -/
def charsOf (ts : List Token) : List Char :=
  ts.flatMap (fun t => t.value.toList)

@[simp]
theorem charsOf_nil : charsOf [] = [] := rfl

@[simp]
theorem charsOf_cons (t : Token) (ts : List Token) : charsOf (t :: ts) = t.value.toList ++ charsOf ts := rfl

theorem toList_join_values (ts : List Token) : (String.join (ts.map Token.value)).toList = charsOf ts := by
  rw [String.toList_join, List.flatMap_map]
  rfl

@[simp]
theorem charsOf_tokenAt (type : TokenType) (pos : Cursor) (text : List Char) (ts : List Token) :
    charsOf (tokenAt type pos text :: ts) = text ++ charsOf ts := by
  rw [charsOf_cons, tokenAt, String.toList_ofList]

/-- Tokens without a value say nothing, so it does not matter whether they are there. -/
theorem charsOf_filter {p : Token → Bool} {ts : List Token} (h : ∀ t ∈ ts, p t = false → t.value = "") :
    charsOf (ts.filter p) = charsOf ts := by
  induction ts with
  | nil => rfl
  | cons t ts ih =>
    obtain ⟨ht, hts⟩ := List.forall_mem_cons.1 h
    by_cases hp : p t = true
    · rw [List.filter_cons_of_pos hp, charsOf_cons, charsOf_cons, ih hts]
    · rw [List.filter_cons_of_neg hp, charsOf_cons, ht (Bool.eq_false_iff.2 hp), ih hts]
      rfl

/-! ## Slices -/

/-- A token that says what stands in a text between its two offsets. -/
structure Token.IsSlice (cs : List Char) (i j : Nat) (t : Token) : Prop where
  start : t.start.offset = .int i
  stop : t.stop.offset = .int j
  advances : i < j
  inside : j ≤ cs.length
  value : t.value.toList = (cs.take j).drop i

/-- Tokens that are slices of a text from an offset on, each of them behind the one before it. -/
inductive Slices (cs : List Char) : Nat → List Token → Prop where
  | nil (offset : Nat) : Slices cs offset []
  | cons {offset i j : Nat} {t : Token} {ts : List Token} (hstart : offset ≤ i) (h : t.IsSlice cs i j)
      (hts : Slices cs j ts) : Slices cs offset (t :: ts)

namespace Slices

variable {cs : List Char} {offset : Nat} {ts us : List Token}

theorem mono {offset' : Nat} (h : Slices cs offset ts) (hle : offset' ≤ offset) : Slices cs offset' ts := by
  cases h with
  | nil => exact .nil offset'
  | cons hstart h hts => exact .cons (hle.trans hstart) h hts

theorem sublist (h : Slices cs offset ts) (hsub : us.Sublist ts) : Slices cs offset us := by
  induction hsub generalizing offset with
  | slnil => exact h
  | cons t _ ih =>
    cases h with
    | cons hstart h hts => exact (ih hts).mono (hstart.trans h.advances.le)
  | cons_cons t _ ih =>
    cases h with
    | cons hstart h hts => exact .cons hstart h (ih hts)

end Slices

theorem isSlice_tokenAt (type : TokenType) {pos : Cursor} {front text : List Char} (hpos : pos.offset = front.length)
    (hne : text ≠ []) (rest : List Char) :
    (tokenAt type pos text).IsSlice (front ++ text ++ rest) pos.offset (front ++ text).length where
  start := rfl
  stop := by
    show Datum.int (pos.advance text).offset = _
    rw [Cursor.offset_advance, hpos, List.length_append]
  advances := by
    have hlength := List.length_pos_iff.2 hne
    rw [List.length_append]
    omega
  inside := (List.prefix_append (front ++ text) rest).length_le
  value := by
    rw [tokenAt, String.toList_ofList, List.take_left, hpos, List.drop_left]

theorem IsPiece.ne_nil {type : TokenType} {text : List Char} (h : IsPiece type text) : text ≠ [] := by
  cases h with
  | word hne => exact hne
  | blanks hne => exact hne
  | newline h => rcases h with rfl | rfl <;> simp

/-- **Tokens that lie side by side are slices of the text that they make up.** -/
theorem Tiled.slices {pos : Cursor} {ts : List Token} (h : Tiled pos ts) : ∀ front : List Char,
    pos.offset = front.length → Slices (front ++ charsOf ts) pos.offset ts := by
  induction h with
  | nil pos => exact fun _ _ => .nil pos.offset
  | @cons pos type text ts hpiece _ ih =>
    intro front hpos
    have hstop : (pos.advance text).offset = (front ++ text).length := by
      rw [Cursor.offset_advance, hpos, List.length_append]
    have hrest := ih (front ++ text) hstop
    rw [hstop] at hrest
    rw [charsOf_tokenAt, ← List.append_assoc]
    exact .cons (Nat.le_refl _) (isSlice_tokenAt type hpos hpiece.ne_nil (charsOf ts)) hrest

/-! ## Blanks -/

theorem Scanner.exists_type_of_lexeme? {sc : Scanner} (hkeep : sc.keepBlanks = true) {c : Char} {rest : List Char} {l : Lexeme}
    {more : List Char} (h : sc.lexeme? c rest = some (l, more)) : ∃ type, l.type = some type := by
  unfold lexeme? at h
  repeat' split at h
  all_goals simp only [Option.some.injEq, Prod.mk.injEq, reduceCtorEq] at h
  all_goals obtain ⟨rfl, rfl⟩ := h
  all_goals simp [*]

/-- **A scanner that keeps blanks loses nothing of a text that it reads to its end.** -/
theorem Scanner.charsOf_scanFrom {sc : Scanner} (hkeep : sc.keepBlanks = true) (pos : Cursor) (cs : List Char) :
    ∀ ts, sc.scanFrom pos cs = Source.ofTokensUntil ts none → charsOf ts = cs := by
  fun_induction scanFrom sc pos cs with
  | case1 pos =>
    intro ts h
    cases ts with
    | nil => rfl
    | cons t ts => cases h
  | case2 pos c rest hl =>
    intro ts h
    cases ts with
    | nil => cases h
    | cons t ts => cases h
  | case3 pos c rest l more hl stop ih =>
    intro ts h
    obtain ⟨type, htype⟩ := exists_type_of_lexeme? hkeep hl
    rw [Lexeme.token?, htype] at h
    cases ts with
    | nil => cases h
    | cons t ts =>
      obtain ⟨ht, hmore⟩ := List.cons.inj h
      obtain rfl := Reply.token.inj ht
      rw [charsOf_cons, String.toList_ofList, ih ts hmore, lexeme?_append hl]

theorem Text.ne_newline_of_blank {c : Char} (h : isBlankChar c = true) : c ≠ '\n' := by
  rintro rfl
  cases h

/-- Without the tokens of blanks, what is said is without its blanks. -/
theorem Tiled.charsOf_dropBlanks {pos : Cursor} {ts : List Token} (h : Tiled pos ts) :
    charsOf (dropBlanks ts) = (charsOf ts).filter (fun c => !Text.isBlankChar c) := by
  induction h with
  | nil => rfl
  | @cons pos type text ts hpiece _ ih =>
    rw [charsOf_tokenAt, List.filter_append, ← ih]
    cases hpiece with
    | word _ hword =>
      have hkept : text.filter (fun c => !Text.isBlankChar c) = text :=
        List.filter_eq_self.2 fun c hc => by simp [Scanner.not_blank_of_isWordChar (hword c hc)]
      rw [dropBlanks_cons rfl, charsOf_tokenAt, hkept]
    | blanks _ hblank =>
      have hlost : text.filter (fun c => !Text.isBlankChar c) = [] :=
        List.filter_eq_nil_iff.2 fun c hc => by simp [hblank c hc]
      have hrun : ∀ t ∈ [tokenAt (.name "WS") pos text], t.isBlank = true := by
        simp [Token.isBlank, tokenAt]
      rw [hlost, List.nil_append]
      exact congrArg charsOf (dropBlanks_run hrun ts)
    | newline htext =>
      have hkept : text.filter (fun c => !Text.isBlankChar c) = text := by rcases htext with rfl | rfl <;> rfl
      rw [dropBlanks_cons rfl, charsOf_tokenAt, hkept]

end Offside
