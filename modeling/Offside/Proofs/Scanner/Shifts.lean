import Offside.Proofs.Scanner.Places
/-!
# Texts behind one another

A scanner that starts further on in a text gives the same tokens there, moved (`Scanner.scanFrom_shifted`).  So behind a
text that ends with a line break it goes on with what it makes of the next text alone, unless it cannot read the former
one; then what comes behind does not matter (`Scanner.scanFrom_append`).  Where a token starts says on which side of the
break it stands (`Scanner.isAt_of_mem_scanFrom`).
-/
namespace Offside

/-- How many characters and lines further on something stands. -/
structure Shift where
  offset : Nat
  line : Nat
deriving DecidableEq, Repr

/-- A number of a place further on, where it is an integer. -/
def Datum.raised (further : Nat) : Datum → Datum
  | .int n => .int (n + further)
  | value => value

/-- A place further on.  Columns are counted from the line's own beginning, and stay. -/
def Place.shifted (d : Shift) (p : Place) : Place :=
  ⟨p.offset.raised d.offset, p.line.raised d.line, p.column⟩

def Token.shifted (d : Shift) (t : Token) : Token :=
  { t with start := t.start.shifted d, stop := t.stop.shifted d }

def Fault.shifted (d : Shift) : Fault → Fault
  | .indent e => .indent { e with line := e.line.raised d.line }
  | .stray e => .stray ⟨e.offset + d.offset, e.line + d.line, e.column⟩
  | f => f

def Reply.shifted (d : Shift) : Reply → Reply
  | .token t => .token (t.shifted d)
  | .fault f => .fault (f.shifted d)
  | r => r

def Cursor.shifted (d : Shift) (pos : Cursor) : Cursor :=
  ⟨pos.offset + d.offset, pos.line + d.line, pos.column⟩

/-- How far a text moves what comes behind it, if it ends with a line break. -/
def Shift.of (text : List Char) : Shift :=
  ⟨text.length, text.count '\n'⟩

section
variable (d : Shift)

theorem Cursor.step_shifted (pos : Cursor) (c : Char) : (pos.shifted d).step c = (pos.step c).shifted d := by
  unfold step
  by_cases h : c = '\n'
  · rw [if_pos h, if_pos h]
    simp only [shifted, Cursor.mk.injEq, and_true]
    omega
  · rw [if_neg h, if_neg h]
    simp only [shifted, Cursor.mk.injEq, and_true]
    omega

theorem Cursor.advance_shifted (s : List Char) : ∀ pos : Cursor,
    (pos.shifted d).advance s = (pos.advance s).shifted d := by
  induction s with
  | nil => exact fun _ => rfl
  | cons c s ih =>
    intro pos
    show ((pos.shifted d).step c).advance s = ((pos.step c).advance s).shifted d
    rw [step_shifted, ih]

theorem map_shifted_ofTokensUntil (ts : List Token) (failure : Option Fault) :
    (Source.ofTokensUntil ts failure).map (Reply.shifted d) =
      Source.ofTokensUntil (ts.map (Token.shifted d)) (failure.map (Fault.shifted d)) := by
  have htokens : (Source.ofTokens ts).map (Reply.shifted d) = Source.ofTokens (ts.map (Token.shifted d)) := by
    rw [Source.ofTokens, Source.ofTokens, List.map_map, List.map_map]
    rfl
  rw [Source.ofTokensUntil, Source.ofTokensUntil, List.map_append, htokens]
  cases failure <;> rfl

/-- **A scanner that starts further on gives the same tokens further on.** -/
theorem Scanner.scanFrom_shifted (sc : Scanner) (pos : Cursor) (cs : List Char) :
    sc.scanFrom (pos.shifted d) cs = (sc.scanFrom pos cs).map (Reply.shifted d) := by
  fun_induction scanFrom sc pos cs with
  | case1 pos => rw [scanFrom, List.map_nil]
  | case2 pos c rest hl => rw [scanFrom_of_stray hl, List.map_singleton]; rfl
  | case3 pos c rest l more hl stop ih =>
    rw [scanFrom_of_lexeme hl, Cursor.advance_shifted, ih, List.map_append]
    cases htype : l.type <;> simp only [Lexeme.token?, htype] <;> rfl

end

/-! ## Behind a line break -/

/-- Behind a line break, a cursor stands where it started, but further on. -/
theorem Cursor.behind_of_break {front : List Char} (h : front.getLast? = some '\n') :
    behind front = start.shifted (.of front) := by
  obtain ⟨more, rfl⟩ := List.getLast?_eq_some_iff.1 h
  simp [behind, Text.lastLine_concat, shifted, start, Shift.of, Nat.add_comm]

theorem Cursor.start_advance (text : List Char) : start.advance text = behind text := advance_behind [] text

namespace Scanner

variable {sc : Scanner} {c : Char} {rest : List Char}

theorem mem_of_break (hlast : (c :: rest).getLast? = some '\n') (hc : c ≠ '\n') : '\n' ∈ rest := by
  rcases List.mem_cons.1 (List.mem_of_getLast? hlast) with h | h
  · exact absurd h.symm hc
  · exact h

/-- A text that ends with a line break decides its first lexeme. -/
theorem lexeme?_append_of_break (hsc : sc.inWord '\n' = false) (hlast : (c :: rest).getLast? = some '\n')
    (tail : List Char) :
    sc.lexeme? c (rest ++ tail) = (sc.lexeme? c rest).map (fun found => (found.1, found.2 ++ tail)) := by
  have hblank : Text.isBlankChar '\n' = false := rfl
  by_cases hc : c = '\n'
  · subst hc
    rfl
  · have hmem := mem_of_break hlast hc
    unfold lexeme?
    rw [takeWhile_append_of_mem hmem hblank, dropWhile_append_of_mem hmem hblank, takeWhile_append_of_mem hmem hsc,
      dropWhile_append_of_mem hmem hsc, if_neg hc, if_neg hc]
    by_cases hb : Text.isBlankChar c = true
    · rw [if_pos hb, if_pos hb]
      cases sc.joinBlanks <;> rfl
    · rw [if_neg hb, if_neg hb]
      by_cases hr : c = '\r'
      · rw [if_pos hr, if_pos hr]
        obtain ⟨d, more, rfl⟩ := List.exists_cons_of_ne_nil (List.ne_nil_of_mem hmem)
        by_cases hd : d = '\n'
        · subst hd
          rfl
        · simp [hd]
      · rw [if_neg hr, if_neg hr]
        rfl

/-- Where the first lexeme is all of a text that ends with a line break, it is that line break. -/
theorem lexeme?_of_break (hsc : sc.inWord '\n' = false) (hlast : (c :: rest).getLast? = some '\n') {l : Lexeme}
    (h : sc.lexeme? c rest = some (l, [])) :
    l.type = some sc.newlineType ∧ (l.text = ['\n'] ∨ l.text = ['\r', '\n']) := by
  have hblank : Text.isBlankChar '\n' = false := rfl
  by_cases hc : c = '\n'
  · subst hc
    obtain ⟨rfl, -⟩ := Prod.mk.inj (Option.some.inj h)
    exact ⟨rfl, .inl rfl⟩
  · have hmem := mem_of_break hlast hc
    -- blanks and words leave the line feed behind
    have hleft {p : Char → Bool} (hp : p '\n' = false) : rest.dropWhile p ≠ [] := fun hnil => by
      rw [List.dropWhile_eq_nil_iff.1 hnil '\n' hmem] at hp
      cases hp
    unfold lexeme? at h
    rw [if_neg hc] at h
    by_cases hb : Text.isBlankChar c = true
    · rw [if_pos hb] at h
      cases hj : sc.joinBlanks <;> simp only [hj, if_true, Bool.false_eq_true, if_false, Option.some.injEq,
        Prod.mk.injEq] at h
      · exact absurd h.2 (List.ne_nil_of_mem hmem)
      · exact absurd h.2 (hleft hblank)
    · rw [if_neg hb] at h
      by_cases hr : c = '\r'
      · rw [if_pos hr] at h
        split at h
        · obtain ⟨rfl, -⟩ := Prod.mk.inj (Option.some.inj h)
          exact ⟨rfl, .inr rfl⟩
        · cases h
      · rw [if_neg hr] at h
        exact absurd (Prod.mk.inj (Option.some.inj h)).2 (hleft hsc)

theorem token?_eq {l : Lexeme} {type : TokenType} (h : l.type = some type) (pos : Cursor) :
    l.token? pos (pos.advance l.text) = some (tokenAt type pos l.text) := by
  rw [Lexeme.token?, h]
  rfl

/-- **A text that ends with a line break is read apart from what is behind it.**  Either it cannot be read, and then what
is behind it does not matter; or its last token is the line break, and the scanner goes on behind it. -/
theorem scanFrom_append (hsc : sc.inWord '\n' = false) (pos : Cursor) (cs : List Char) : cs.getLast? = some '\n' →
    (∃ ts f, ∀ tail, sc.scanFrom pos (cs ++ tail) = Source.ofTokensUntil ts (some f)) ∨
      ∃ before front text, cs = front ++ text ∧ (text = ['\n'] ∨ text = ['\r', '\n']) ∧ ∀ tail,
        sc.scanFrom pos (cs ++ tail) =
          Source.ofTokens (before ++ [tokenAt sc.newlineType (pos.advance front) text]) ++
            sc.scanFrom (pos.advance cs) tail := by
  fun_induction scanFrom sc pos cs with
  | case1 =>
    intro hlast
    cases hlast
  | case2 pos c rest hl =>
    intro hlast
    refine .inl ⟨[], pos.stray, fun tail => ?_⟩
    rw [List.cons_append, scanFrom_of_stray (by rw [lexeme?_append_of_break hsc hlast, hl]; rfl)]
    rfl
  | case3 pos c rest l more hl stop ih =>
    intro hlast
    have hsplit : l.text ++ more = c :: rest := lexeme?_append hl
    have hfirst (tail : List Char) : sc.scanFrom pos (c :: rest ++ tail) =
        ((l.token? pos stop).map Reply.token).toList ++ sc.scanFrom stop (more ++ tail) := by
      have hlexeme := lexeme?_append_of_break hsc hlast tail
      rw [hl] at hlexeme
      exact scanFrom_of_lexeme hlexeme pos
    by_cases hmore : more = []
    · subst hmore
      obtain ⟨htype, htext⟩ := lexeme?_of_break hsc hlast hl
      rw [List.append_nil] at hsplit
      refine .inr ⟨[], [], l.text, hsplit.symm, htext, fun tail => ?_⟩
      rw [hfirst, token?_eq htype, ← hsplit]
      rfl
    · have hends : more.getLast? = some '\n' := by
        rw [← hsplit, List.getLast?_append_of_ne_nil _ hmore] at hlast
        exact hlast
      rcases ih hends with ⟨ts, f, hscan⟩ | ⟨before, front, text, rfl, htext, hscan⟩
      · refine .inl ⟨(l.token? pos stop).toList ++ ts, f, fun tail => ?_⟩
        rw [hfirst, hscan, Source.ofTokens_append_until]
        cases l.token? pos stop <;> rfl
      · refine .inr ⟨(l.token? pos stop).toList ++ before, l.text ++ front, text, ?_, htext, fun tail => ?_⟩
        · rw [List.append_assoc, hsplit]
        · rw [hfirst, hscan, ← hsplit, Cursor.advance_append pos l.text (front ++ text),
            Cursor.advance_append pos l.text front]
          cases l.token? pos stop <;> rfl

/-! ## Places -/

end Scanner

/-- A reply that says where a scanner stands. -/
inductive Reply.IsAt (pos : Cursor) : Reply → Prop where
  | token {t : Token} (h : t.start = pos.place) : IsAt pos (.token t)
  | stray : IsAt pos (.fault pos.stray)

namespace Scanner

/-- Every reply of a scanner says where it stands in the text, with something still to read. -/
theorem isAt_of_mem_scanFrom (sc : Scanner) (pos : Cursor) (cs : List Char) : ∀ r ∈ sc.scanFrom pos cs,
    ∃ front rest, cs = front ++ rest ∧ rest ≠ [] ∧ r.IsAt (pos.advance front) := by
  fun_induction scanFrom sc pos cs with
  | case1 => simp
  | case2 pos c rest hl =>
    intro r hr
    obtain rfl := List.mem_singleton.1 hr
    exact ⟨[], c :: rest, rfl, List.cons_ne_nil c rest, .stray⟩
  | case3 pos c rest l more hl stop ih =>
    intro r hr
    have hsplit : l.text ++ more = c :: rest := lexeme?_append hl
    rcases List.mem_append.1 hr with hr | hr
    · refine ⟨[], c :: rest, rfl, List.cons_ne_nil c rest, ?_⟩
      cases htype : l.type with
      | none => simp [Lexeme.token?, htype] at hr
      | some type =>
        rw [token?_eq htype, Option.map_some, Option.toList_some, List.mem_singleton] at hr
        rw [hr]
        exact .token rfl
    · obtain ⟨front, rest', rfl, hne, hat⟩ := ih r hr
      refine ⟨l.text ++ front, rest', ?_, hne, ?_⟩
      · rw [List.append_assoc, hsplit]
      · rwa [Cursor.advance_append]

end Scanner
end Offside
