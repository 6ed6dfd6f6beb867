import Offside.Proofs.Stream.Blanks
/-!
# Streams over the variants

The streams over the three variants of the word scanner give the same tokens but for the blanks, with the same markers
at the same places, and end in the same way (`variants_agree`).  For each variant an indentation comes out as the
columns to the left of a line's first word, although one adds up a token for every blank, one has a single token, and
one has no token at all.
-/
namespace Offside

variable {policy : Policy} {n : Nat}

theorem Token.totalWidth_append (ts us : List Token) : totalWidth (ts ++ us) = totalWidth ts + totalWidth us := by
  induction ts with
  | nil => rw [List.nil_append, totalWidth, Nat.zero_add]
  | cons t ts ih => rw [List.cons_append, totalWidth, totalWidth, ih, Nat.add_assoc]

namespace Tiled

theorem carriedIndent_eq {pos : Cursor} {ts : List Token} (h : Tiled pos ts) : ∀ t ∈ ts, t.carriedIndent = 0 := by
  induction h with
  | nil => simp
  | @cons pos type text ts hpiece _ ih =>
    refine List.forall_mem_cons.2 ⟨?_, ih⟩
    rw [Token.carriedIndent, tokenAt, String.toList_ofList]
    cases hpiece with
    | word _ h =>
      have hline : '\n' ∉ text := fun hn => Bool.false_ne_true (h '\n' hn)
      rw [Text.trailingIndent_of_not_mem hline]
      rfl
    | blanks _ h =>
      have hline : '\n' ∉ text := fun hn => Bool.false_ne_true (h '\n' hn)
      rw [Text.trailingIndent_of_not_mem hline]
      rfl
    | newline h => rcases h with rfl | rfl <;> rfl

theorem of_append {us : List Token} : ∀ {ts : List Token} {pos : Cursor}, Tiled pos (ts ++ us) → ∃ pos', Tiled pos' us
  | [], pos, h => ⟨pos, h⟩
  | _ :: _, _, .cons _ h => h.of_append

/-- The columns to the left of a line are the width of the blanks that it begins with. -/
theorem length_eq {c : Token} {more gap : List Token} : ∀ {newline : Token} {whitespace : List Token} {pos : Cursor},
    let cfg := wordConfig policy n
    newline.carriedIndent = 0 → (∀ t ∈ whitespace, cfg.classify t = .whitespace) →
      pos.column = 1 + Token.totalWidth whitespace → Tiled pos (gap ++ c :: more) → (∀ u ∈ gap, cfg.isGap u = true) →
      (Window.mk newline (whitespace ++ gap) (some c)).length cfg = c.columnsBefore := by
  induction gap with
  | nil =>
    intro newline whitespace pos cfg hcarried hw hcolumn h _
    obtain ⟨hblank, hindent, hlast⟩ := Window.of_whitespace newline hw (some c)
    cases h with
    | @cons _ type text _ hpiece _ =>
      have hbefore : (tokenAt type pos text).columnsBefore = Token.totalWidth whitespace := by
        show ((pos.column : Int) - 1).toNat = _
        omega
      rw [List.append_nil, Window.length_of_uncarried rfl (by rwa [hlast]), hindent, hbefore]
      by_cases hnil : whitespace = []
      · rw [if_pos hnil]
      · rw [if_neg hnil]
  | cons u gap ih =>
    intro newline whitespace pos cfg hcarried hw hcolumn h hgap
    obtain ⟨hu, hrest⟩ := List.forall_mem_cons.1 hgap
    cases h with
    | @cons _ type text _ hpiece hts =>
      cases hpiece with
      | word => cases hu
      | blanks _ hblank =>
        let u := tokenAt (.name "WS") pos text
        have hline : '\n' ∉ text := fun hn => Bool.false_ne_true (hblank '\n' hn)
        have hw' : ∀ t ∈ whitespace ++ [u], cfg.classify t = .whitespace := by
          intro t ht
          rcases List.mem_append.1 ht with ht | ht
          · exact hw t ht
          · rw [List.mem_singleton.1 ht]
            rfl
        have hcolumn' : (pos.advance text).column = 1 + Token.totalWidth (whitespace ++ [u]) := by
          have hwidth : u.width = text.length := String.length_ofList
          rw [(Cursor.advance_of_not_mem text pos hline).2, Token.totalWidth_append, hcolumn]
          simp only [Token.totalWidth, hwidth]
          omega
        have hnext := ih hcarried hw' hcolumn' hts hrest
        rwa [List.append_assoc] at hnext
      | newline htext =>
        let u := tokenAt (.name "NL") pos text
        have hcarried' : u.carriedIndent = 0 := carriedIndent_eq (.cons (.newline htext) hts) _ List.mem_cons_self
        have hcolumn' : (pos.advance text).column = 1 + Token.totalWidth [] := by rcases htext with rfl | rfl <;> rfl
        have hclass : cfg.classify u = .newline := rfl
        have hnext := ih hcarried' (by simp) hcolumn' hts hrest
        obtain ⟨-, hindent, hlast⟩ := Window.cons_blank newline whitespace hclass gap (some c)
        rw [Window.length, hindent, hlast]
        exact hnext

theorem measured {ts : List Token} : ∀ {pos : Cursor}, Tiled pos ts → Measured (wordConfig policy n) ts := by
  fun_induction segments (wordConfig policy n) ts with
  | case1 =>
    intro pos _ w t hw
    rw [segments] at hw
    cases hw
  | case2 t ts hc ih =>
    intro pos h w c hw hcontent
    let gap := ts.takeWhile (wordConfig policy n).isGap
    let rest := ts.dropWhile (wordConfig policy n).isGap
    have hsplit : ts = gap ++ rest := List.takeWhile_append_dropWhile.symm
    have hcarried : t.carriedIndent = 0 := h.carriedIndent_eq t List.mem_cons_self
    rw [segments_of_newline hc] at hw
    cases h with
    | @cons _ type text _ hpiece hts =>
      rcases List.mem_cons.1 hw with hw | hw
      · obtain rfl := Segment.window.inj hw
        obtain ⟨more, hmore⟩ := List.head?_eq_some_iff.1 (show rest.head? = some c from hcontent)
        have htiled : Tiled (pos.advance text) (gap ++ c :: more) := by rwa [← hmore, ← hsplit]
        have hcolumn : (pos.advance text).column = 1 + Token.totalWidth [] := by
          cases hpiece with
          | newline htext => rcases htext with rfl | rfl <;> rfl
          | word => cases hc
          | blanks => cases hc
        have hlength : (Window.mk _ ([] ++ gap) (some c)).length (wordConfig policy n) = c.columnsBefore :=
          htiled.length_eq hcarried (by simp) hcolumn fun u hu => List.mem_takeWhile_imp hu
        rw [← hcontent, List.nil_append] at hlength
        exact hlength
      · obtain ⟨front, hfront⟩ := (List.tail_suffix rest).trans (List.dropWhile_suffix (wordConfig policy n).isGap)
        rw [← hfront] at hts
        obtain ⟨pos', hrest⟩ := hts.of_append
        exact ih hrest w c hw hcontent
  | case3 t ts hc ih =>
    intro pos h w c hw hcontent
    rw [segments_of_not_newline hc] at hw
    cases h with
    | cons _ hts => exact ih hts w c ((List.mem_cons.1 hw).resolve_left (by simp)) hcontent

end Tiled

/-- A layout ends as its source does, or with the error of an indentation. -/
theorem fault_layout (cfg : Config) (failure : Option Fault) (segs : List Segment) : ∀ (unit : Nat)
    (opened : List Token) (f : Fault), (layout cfg failure unit opened segs).fault = some f →
      failure = some f ∨ ∃ e, f = .indent e := by
  induction segs with
  | nil =>
    intro unit opened f h
    cases failure with
    | none => cases h
    | some g => exact .inl h
  | cons seg segs ih =>
    intro unit opened f h
    cases seg with
    | token t => exact ih unit opened f h
    | window w =>
      by_cases hopen : w.content ≠ none ∨ failure = none
      · rw [layout_window hopen] at h
        by_cases hd : w.length cfg % fixedBy unit (w.length cfg) = 0
        · simp only [if_pos hd] at h
          exact ih _ _ f h
        · simp only [if_neg hd] at h
          exact .inr ⟨_, (Option.some.inj h).symm⟩
      · rw [layout_window_cut hopen] at h
        exact .inl h

/-- Where blanks are no tokens, lines are measured by their columns alone. -/
theorem Tiled.measured_dropBlanks {pos : Cursor} {ts : List Token} (h : Tiled pos ts) :
    Measured (wordConfig policy n) (dropBlanks ts) :=
  measured_of_no_whitespace (fun t ht => h.carriedIndent_eq t (List.mem_filter.1 ht).1) (isWhitespace_dropBlanks ts)

/-- The tokens of a variant are those that the variant with all blanks sees, but for the blanks; whatever becomes of
these, lines are measured by their columns. -/
theorem ScannedAlike.exists_tokens {pos : Cursor} {cs : List Char} {ts : List Token} {failure : Option Fault}
    (h : ScannedAlike pos cs ts failure) (policy : Policy) (n : Nat) (variant : Variant) : ∃ us,
      variant.scanner.scanFrom pos cs = Source.ofTokensUntil us failure ∧ Measured (wordConfig policy n) us ∧
        dropBlanks us = dropBlanks ts := by
  cases variant with
  | spaces => exact ⟨ts, h.spaces, h.tiled.measured, rfl⟩
  | space => exact ⟨mergeBlanks ts, h.space, h.merged.measured, dropBlanks_mergeBlanks ts⟩
  | ignore =>
    refine ⟨dropBlanks ts, h.ignore, h.tiled.measured_dropBlanks, ?_⟩
    exact List.filter_eq_self.2 fun t ht => (List.mem_filter.1 ht).2

/-- A text is cut into tokens in a variant as its tokens are laid out. -/
theorem tokenize_of_layout {text : String} {variant : Variant} {us : List Token} {failure : Option Fault}
    (hscan : variant.scanner.scanFrom .start text.toList = Source.ofTokensUntil us failure) :
    let l := layout (wordConfig policy n) failure n [] (segments (wordConfig policy n) us)
    (∀ f, l.fault = some f → tokenize text variant policy n = .error f) ∧
      (l.fault = none → tokenize text variant policy n = .ok l.tokens) := by
  intro l
  obtain ⟨htokens, hfault⟩ : (drainText (wordConfig policy n) variant text).tokens = l.tokens ∧
      (drainText (wordConfig policy n) variant text).fault = l.fault :=
    Stream.drain_layout _ (Scanner.isScanned_of_scanFrom hscan) hscan
  rw [tokenize, Drained.toExcept, htokens, hfault]
  exact ⟨fun f hf => by rw [hf], fun hf => by rw [hf]⟩

/-- The tokens of a text that has any are those of its layout, which met no failure. -/
theorem layout_of_tokenize {text : String} {variant : Variant} {ts us : List Token} {failure : Option Fault}
    (hscan : variant.scanner.scanFrom .start text.toList = Source.ofTokensUntil us failure)
    (h : tokenize text variant policy n = .ok ts) :
    let l := layout (wordConfig policy n) failure n [] (segments (wordConfig policy n) us)
    l.fault = none ∧ ts = l.tokens := by
  intro l
  obtain ⟨herror, hok⟩ := tokenize_of_layout hscan
  cases hl : l.fault with
  | some f => cases (herror f hl).symm.trans h
  | none => exact ⟨rfl, (Except.ok.inj ((hok hl).symm.trans h)).symm⟩

/-- **The variants of the scanner agree.**  With each run of blanks merged into one token, the stream over the variant
that has a token for every blank is the stream over the one that has a token for a run; without blanks, the latter is
the stream over the one that leaves them out.  All three end alike: at the end of the text, or in the same error, of an
indentation or of a stray carriage return. -/
theorem variants_agree (policy : Policy) (unit : Nat) (text : String) :
    let d (v : Variant) := drainText (wordConfig policy unit) v text
    mergeBlanks (d .spaces).tokens = (d .space).tokens ∧ dropBlanks (d .space).tokens = (d .ignore).tokens ∧
      (∀ v, (d v).fault = (d .spaces).fault) ∧
      ∀ v f, (d v).fault = some f → (∃ e, f = .indent e) ∨ ∃ place, f = .stray place := by
  intro d
  let cfg := wordConfig policy unit
  obtain ⟨ts, failure, h⟩ := scan_variants (pieces Scanner.isWordChar text.toList) .start
  have hgives {v : Variant} {us : List Token} (hus : ∀ t ∈ us, t.IsScanned)
      (hscan : v.scanner.scanFrom .start text.toList = Source.ofTokensUntil us failure) :
      (d v).tokens = (layout cfg failure unit [] (segments cfg us)).tokens ∧
        (d v).fault = (layout cfg failure unit [] (segments cfg us)).fault := Stream.drain_layout cfg hus hscan
  have hdrop : ∀ t ∈ dropBlanks ts, t ∈ ts := fun t ht => (List.mem_filter.1 ht).1
  have hmeasured : Measured cfg (dropBlanks ts) :=
    measured_of_no_whitespace (fun t ht => h.tiled.carriedIndent_eq t (hdrop t ht)) fun t ht => by
      rw [isWhitespace_wordConfig]
      simpa using (List.mem_filter.1 ht).2
  obtain ⟨htokens, hfault⟩ := hgives h.tiled.isScanned h.spaces
  obtain ⟨htokens', hfault'⟩ := hgives h.merged.isScanned h.space
  obtain ⟨htokens'', hfault''⟩ := hgives (fun t ht => h.tiled.isScanned t (hdrop t ht)) h.ignore
  have hmerge : layout cfg failure unit [] (segments cfg (mergeBlanks ts)) =
      (layout cfg failure unit [] (segments cfg ts)).rewritten mergeBlanks [] :=
    layout_rewrite mergeBlanks_rewrites failure ts h.tiled.measured [] (by simp) h.merged.measured unit []
  have hremove : layout cfg failure unit [] (segments cfg (dropBlanks ts)) =
      (layout cfg failure unit [] (segments cfg ts)).rewritten dropBlanks [] :=
    layout_rewrite dropBlanks_rewrites failure ts h.tiled.measured [] (by simp) hmeasured unit []
  rw [hmerge] at htokens' hfault'
  rw [hremove] at htokens'' hfault''
  have hsame : ∀ v, (d v).fault = (layout cfg failure unit [] (segments cfg ts)).fault := by
    rintro (_ | _ | _)
    · exact hfault'
    · exact hfault
    · exact hfault''
  refine ⟨?_, ?_, fun v => (hsame v).trans hfault.symm, fun v f hf => ?_⟩
  · rw [htokens, htokens']
    rfl
  · rw [htokens', htokens'']
    exact dropBlanks_mergeBlanks _
  · rw [hsame v] at hf
    rcases fault_layout cfg failure _ unit [] f hf with hf | he
    · exact .inr (h.stray f hf)
    · exact .inl he

end Offside
