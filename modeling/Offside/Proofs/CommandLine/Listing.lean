import Offside.Proofs.CommandLine.Outcome
import Offside.Proofs.Stream.Text
import Offside.Proofs.Text.Quoting
/-!
# The listing of tokens is read back

A listing has one line for each token, with a tab between the place and the type and one between the type and the quoted
value.  Where places are numbers and types names without a tab or a line break, neither of the two stands anywhere else,
so that lines and fields come apart again and the listing tells all that it was made of (`readListing_listing`).  The
tokens of a text are of this kind (`isListable_of_tokenize`).  Where they keep white space they make up the text, and so
the listings of two texts differ (`listing_decodable`).
-/
namespace Offside
namespace CommandLine

/-- What a line of the listing says of a token. -/
structure Listed where
  line : Datum
  column : Datum
  type : TokenType
  value : String
deriving DecidableEq

def Listed.ofToken (t : Token) : Listed :=
  ⟨t.start.line, t.start.column, t.type, t.value⟩

/-! ## Reading a listing -/

/-- The integer that some digits write, behind a sign if it is negative. -/
def readInteger : List Char → Int
  | '-' :: digits => -(Nat.ofDigitChars 10 digits 0 : Int)
  | digits => Nat.ofDigitChars 10 digits 0

def readLine (line : List Char) : Option Listed :=
  match line.splitOn '\t' with
  | [place, type, value] =>
    match place.splitOn ':', Text.unquoted value with
    | [line, column], some cs =>
      some ⟨.int (readInteger line), .int (readInteger column), .name (String.ofList type), String.ofList cs⟩
    | _, _ => none
  | _ => none

/-- Reads lines, behind the last of which there is a line break and nothing else. -/
def readLines : List (List Char) → Option (List Listed)
  | [] => none
  | [rest] => if rest = [] then some [] else none
  | line :: lines => do
    let x ← readLine line
    let xs ← readLines lines
    return x :: xs

/-- What a listing says of the tokens that it lists. -/
def readListing (text : String) : Option (List Listed) :=
  readLines (text.toList.splitOn '\n')

/-! ## Numbers -/

theorem toList_toString_ofNat (n : Nat) : (toString (Int.ofNat n)).toList = Nat.toDigits 10 n := by
  show (toString n).toList = _
  rw [Nat.toString_eq_ofList_toDigits, String.toList_ofList]

theorem toList_toString_negSucc (n : Nat) : (toString (Int.negSucc n)).toList = '-' :: Nat.toDigits 10 (n + 1) := by
  show ("-" ++ toString (n + 1)).toList = _
  rw [String.toList_append, Nat.toString_eq_ofList_toDigits]
  exact congrArg (List.cons '-') String.toList_ofList

theorem isDigit_of_mem_toDigits {n : Nat} {c : Char} (h : c ∈ Nat.toDigits 10 n) : c.isDigit = true :=
  Nat.isDigit_of_mem_toDigits (by decide) (by decide) h

theorem mem_toString {n : Int} {c : Char} (h : c ∈ (toString n).toList) : c = '-' ∨ c.isDigit = true := by
  cases n with
  | ofNat n =>
    rw [toList_toString_ofNat] at h
    exact .inr (isDigit_of_mem_toDigits h)
  | negSucc n =>
    rw [toList_toString_negSucc, List.mem_cons] at h
    exact h.imp_right isDigit_of_mem_toDigits

/-- A number has neither a tab in it, nor a line feed or a colon. -/
theorem not_mem_toString (n : Int) {c : Char} (hc : c = '\t' ∨ c = '\n' ∨ c = ':') : c ∉ (toString n).toList := by
  intro h
  rcases hc with rfl | rfl | rfl <;> exact absurd (mem_toString h) (by decide)

theorem readInteger_toString (n : Int) : readInteger (toString n).toList = n := by
  cases n with
  | ofNat n =>
    rw [toList_toString_ofNat]
    obtain ⟨d, ds, hds⟩ := List.exists_cons_of_ne_nil (Nat.toDigits_ne_nil : Nat.toDigits 10 n ≠ [])
    have hd : d ≠ '-' := by
      rintro rfl
      have hdigit : ('-').isDigit = true := isDigit_of_mem_toDigits (n := n) (hds ▸ List.mem_cons_self)
      cases hdigit
    have hread : readInteger (Nat.toDigits 10 n) = (Nat.ofDigitChars 10 (Nat.toDigits 10 n) 0 : Int) := by
      rw [hds, readInteger]
      rintro _ ⟨⟩
      exact hd rfl
    rw [hread, Nat.ofDigitChars_ten_toDigits]
    rfl
  | negSucc n =>
    rw [toList_toString_negSucc, readInteger, Nat.ofDigitChars_ten_toDigits]
    rfl

end CommandLine

/-! ## Lines -/

/-- A token whose place is numbers, and whose type is a name that can stand in a field. -/
structure Token.IsListable (t : Token) : Prop where
  line : ∃ n : Int, t.start.line = .int n
  column : ∃ n : Int, t.start.column = .int n
  type : ∃ s : String, t.type = .name s ∧ '\t' ∉ s.toList ∧ '\n' ∉ s.toList

namespace CommandLine

/-- **The line of a token has two tabs and ends with its one line feed, and it is read as the token.** -/
theorem exists_line {t : Token} (h : t.IsListable) : ∃ line, (tokenLine t).toList = line ++ ['\n'] ∧ '\n' ∉ line ∧
    line.count '\t' = 2 ∧ readLine line = some (.ofToken t) := by
  obtain ⟨⟨line, hline⟩, ⟨column, hcolumn⟩, ⟨type, htype, htab, hfeed⟩⟩ := h
  let place := (toString line).toList ++ ':' :: (toString column).toList
  let value := Text.quoted t.value.toList
  have hplace {c : Char} (hc : c = '\t' ∨ c = '\n') : c ∉ place := by
    have hne : c ≠ ':' := by rcases hc with rfl | rfl <;> decide
    have hc' : c = '\t' ∨ c = '\n' ∨ c = ':' := hc.imp_right .inl
    rw [List.mem_append, List.mem_cons]
    rintro (h | h | h)
    · exact not_mem_toString line hc' h
    · exact hne h
    · exact not_mem_toString column hc' h
  have hvalue {c : Char} (hc : Text.endsField c = true) : c ∉ value := fun hmem =>
    Bool.false_ne_true ((Text.endsField_of_mem_quoted c hmem).symm.trans hc)
  have hchars : (tokenLine t).toList = (place ++ '\t' :: (type.toList ++ '\t' :: value)) ++ ['\n'] := by
    have hname : t.type.display = type := by
      rw [htype]
      rfl
    simp only [tokenLine, hline, hcolumn, hname, Datum.display_int, String.toList_append, Text.quote,
      String.toList_ofList, List.append_assoc, place, value, List.cons_append]
    rfl
  refine ⟨_, hchars, ?_, ?_, ?_⟩
  · simp [hplace, hvalue, hfeed, Text.endsField]
  · simp [List.count_append, List.count_eq_zero_of_not_mem, hplace, hvalue, htab, Text.endsField]
  · have hfields : (place ++ '\t' :: (type.toList ++ '\t' :: value)).splitOn '\t' = [place, type.toList, value] := by
      rw [List.splitOn_append_cons_self_of_not_mem (hplace (.inl rfl)), List.splitOn_append_cons_self_of_not_mem htab,
        List.splitOn_eq_singleton (hvalue rfl)]
    have hnumbers : place.splitOn ':' = [(toString line).toList, (toString column).toList] := by
      rw [List.splitOn_append_cons_self_of_not_mem (not_mem_toString line (.inr (.inr rfl))),
        List.splitOn_eq_singleton (not_mem_toString column (.inr (.inr rfl)))]
    simp only [readLine, hfields, hnumbers, value, Text.unquoted_quoted, readInteger_toString, String.ofList_toList,
      Listed.ofToken, hline, hcolumn, htype]

/-- **A listing is read as the tokens that it lists.** -/
theorem readListing_listing {ts : List Token} (h : ∀ t ∈ ts, t.IsListable) :
    readListing (listing ts) = some (ts.map Listed.ofToken) := by
  unfold readListing
  induction ts with
  | nil => rfl
  | cons t ts ih =>
    obtain ⟨ht, hts⟩ := List.forall_mem_cons.1 h
    obtain ⟨line, hline, hfeed, -, hread⟩ := exists_line ht
    obtain ⟨next, lines, hlines⟩ := List.exists_cons_of_ne_nil (List.splitOn_ne_nil '\n' (listing ts).toList)
    have hchars : (listing (t :: ts)).toList = line ++ '\n' :: (listing ts).toList := by
      rw [listing, List.map_cons, String.join_cons, String.toList_append, hline]
      simp [listing]
    have ih := ih hts
    rw [hlines] at ih
    rw [hchars, List.splitOn_append_cons_self_of_not_mem hfeed, hlines, readLines, hread, ih]
    · rfl
    · nofun

end CommandLine

/-! ## The tokens of a text -/

theorem Tiled.isListable {pos : Cursor} {ts : List Token} (h : Tiled pos ts) : ∀ t ∈ ts, t.IsListable := by
  induction h with
  | nil => exact List.forall_mem_nil _
  | cons hpiece _ ih =>
    refine List.forall_mem_cons.2 ⟨⟨⟨_, rfl⟩, ⟨_, rfl⟩, ?_⟩, ih⟩
    cases hpiece with
    | word => exact ⟨"WORD", rfl, by decide, by decide⟩
    | blanks => exact ⟨"WS", rfl, by decide, by decide⟩
    | newline => exact ⟨"NL", rfl, by decide, by decide⟩

section
variable {text : String} {variant : Variant} {policy : Policy} {unit : Nat} {ts : List Token}

/-- Whatever the variant, each token of a text has a place and a name that can stand in the listing. -/
theorem isListable_of_tokenize (h : tokenize text variant policy unit = .ok ts) : ∀ t ∈ ts, t.IsListable := by
  obtain ⟨us, failure, hs⟩ := scan_variants (pieces Scanner.isWordChar text.toList) .start
  obtain ⟨vs, hscan, hvs⟩ : ∃ vs, variant.scanner.scanFrom .start text.toList = Source.ofTokensUntil vs failure ∧
      ∀ t ∈ vs, t.IsListable := by
    cases variant with
    | spaces => exact ⟨us, hs.spaces, hs.tiled.isListable⟩
    | space => exact ⟨mergeBlanks us, hs.space, hs.merged.isListable⟩
    | ignore => exact ⟨dropBlanks us, hs.ignore, fun t ht => hs.tiled.isListable t (List.mem_filter.1 ht).1⟩
  let cfg := wordConfig policy unit
  have hclosing (m : Token) (hm : m.IsListable) : (cfg.kinds.closing m).IsListable :=
    ⟨hm.line, hm.column, "DEDENT", rfl, by decide, by decide⟩
  have hopening (t : Token) (ht : t.IsListable) (unit level : Nat) : (t.opening cfg.kinds unit level).IsListable := by
    obtain ⟨n, hn⟩ := ht.column
    refine ⟨ht.line, ⟨n + level * unit, ?_⟩, "INDENT", rfl, by decide, by decide⟩
    simp only [Token.opening, hn, Token.markerAt]
  have hsegs : ∀ seg ∈ segments cfg vs, ∀ t ∈ seg.tokens, t.IsListable := fun seg hseg t ht =>
    hvs t (tokens_segments cfg vs ▸ List.mem_flatMap.2 ⟨seg, hseg, ht⟩)
  obtain ⟨-, rfl⟩ := layout_of_tokenize hscan h
  exact forall_layout hclosing hopening failure hsegs unit (List.forall_mem_nil _)

/-- With its blanks kept and passed on, a text is what its tokens say. -/
theorem charsOf_of_tokenize (hvariant : variant ≠ .ignore) (hpolicy : policy ≠ .skip)
    (h : tokenize text variant policy unit = .ok ts) : charsOf ts = text.toList := by
  obtain ⟨us, failure, hus, hscan⟩ := exists_tiled hvariant text.toList
  have hkeep : variant.scanner.keepBlanks = true := by cases variant <;> trivial
  obtain ⟨rfl, -, hchars⟩ := passed_of_tokenize hscan h
  rw [hchars, (passed_of_tiled hus (Scanner.charsOf_scanFrom hkeep .start text.toList us hscan)).1, if_neg hpolicy]

end

namespace CommandLine

/-! ## Runs -/

/-- A run that lists the tokens of a file, in some variant and under some policy, and does not fail: what it reads as
the text of the file, and what it prints. -/
def Lists (args : List String) (look : String → Outline.Found) (variant : Variant) (policy : Policy)
    (text stdout : String) : Prop :=
  ∃ o bytes r, parse args = .ok o ∧ o.tree = false ∧ o.variant = some variant ∧ o.policy = some policy ∧
    look o.file = .file bytes ∧ Outline.textOfBytes bytes = .ok text ∧ run args look = .ok r ∧ r.exit = 0 ∧
    r.stdout = stdout

/-- A run that lists tokens and does not fail lists those of the text. -/
theorem listing_of_printText {o : Options} {variant : Variant} {policy : Policy} {text : String} {r : Report}
    (htree : o.tree = false) (hvariant : o.variant = some variant) (hpolicy : o.policy = some policy)
    (h : printText o text = .ok r) (hexit : r.exit = 0) :
    ∃ unit ts, tokenize text variant policy unit = .ok ts ∧ r.stdout = listing ts := by
  have hname := variantOfDatum_of_variant hvariant
  rw [printText, htree, if_neg Bool.false_ne_true, wordConfigOfData_of_policy hpolicy] at h
  cases hunit : unitOfDatum o.unitValue with
  | error e =>
    rw [hunit] at h
    obtain rfl := Except.ok.inj h
    cases hexit
  | ok unit =>
    rw [hunit] at h
    simp only [Except.map, hname] at h
    obtain rfl := Except.ok.inj h
    unfold printTokens at hexit ⊢
    cases hd : (drainText (wordConfig policy unit) variant text).toExcept with
    | error f =>
      simp only [hd] at hexit
      cases hexit
    | ok ts => exact ⟨unit, ts, hd, by simp only [hd]⟩

theorem Lists.exists_tokens {args : List String} {look : String → Outline.Found} {variant : Variant} {policy : Policy}
    {text stdout : String} (h : Lists args look variant policy text stdout) :
    ∃ unit ts, tokenize text variant policy unit = .ok ts ∧ stdout = listing ts := by
  obtain ⟨o, bytes, r, hparse, htree, hvariant, hpolicy, hlook, htext, hrun, hexit, rfl⟩ := h
  simp only [run, hparse, execute, hlook, htext] at hrun
  exact listing_of_printText htree hvariant hpolicy hrun hexit

/-- Where the tokens of the text are all there is to it, they are listed. -/
theorem lists_of_tokenize {args : List String} {look : String → Outline.Found} {o : Options} {variant : Variant}
    {policy : Policy} {unit : Nat} {bytes : List UInt8} {text : String} {ts : List Token} (hparse : parse args = .ok o)
    (htree : o.tree = false) (hvariant : o.variant = some variant) (hpolicy : o.policy = some policy)
    (hunit : o.unit = some (unit : Int)) (hlook : look o.file = .file bytes)
    (htext : Outline.textOfBytes bytes = .ok text) (h : tokenize text variant policy unit = .ok ts) :
    Lists args look variant policy text (listing ts) := by
  have hvalue : unitOfDatum o.unitValue = .ok unit := by
    rw [Options.unitValue, hunit]
    exact unitOfDatum_toNat (Int.not_lt.2 (Int.natCast_nonneg unit))
  have hprint : printText o text = .ok (printTokens o (wordConfig policy unit) variant text) := by
    rw [printText, htree, if_neg Bool.false_ne_true, wordConfigOfData_of_policy hpolicy,
      variantOfDatum_of_variant hvariant, hvalue]
    rfl
  have hrun : run args look = .ok (printTokens o (wordConfig policy unit) variant text) := by
    simp only [run, hparse, execute, hlook, htext, hprint]
  rw [tokenize] at h
  refine ⟨o, bytes, _, hparse, htree, hvariant, hpolicy, hlook, htext, hrun, ?_, ?_⟩ <;> simp only [printTokens, h]

theorem charsOf_of_listing {text text' : String} {v v' : Variant} {p p' : Policy} {n n' : Nat} {ts ts' : List Token}
    (h : tokenize text v p n = .ok ts) (h' : tokenize text' v' p' n' = .ok ts') (hlisting : listing ts = listing ts') :
    charsOf ts = charsOf ts' := by
  have hread := readListing_listing (isListable_of_tokenize h)
  rw [hlisting, readListing_listing (isListable_of_tokenize h')] at hread
  have hvalues : ts'.map Token.value = ts.map Token.value := by
    have hmap := congrArg (List.map Listed.value) (Option.some.inj hread)
    rwa [List.map_map, List.map_map] at hmap
  rw [← toList_join_values, ← toList_join_values, hvalues]

/-- **The listing can be decoded.**  (a) The listing of any tokens with numbers for places, and with names for types
that have no tab and no line feed, is read as the places, types and values of these tokens.  (b) Each token has one
line, which ends with its only line feed and has two tabs.  (c) A quoted value has no tab, line feed or carriage return
in it, and no two values are quoted alike.  (d) A run that lists the tokens of a file lists tokens of this kind.  (e) In
the variants that keep blanks, with the white space passed on, no two texts have one listing. -/
theorem listing_decodable :
    (∀ ts : List Token, (∀ t ∈ ts, t.IsListable) → readListing (listing ts) = some (ts.map Listed.ofToken)) ∧
    (∀ t : Token, t.IsListable →
      ∃ line, (tokenLine t).toList = line ++ ['\n'] ∧ '\n' ∉ line ∧ line.count '\t' = 2) ∧
    (∀ s : String, ∀ c ∈ (Text.quote s).toList, c ≠ '\t' ∧ c ≠ '\n' ∧ c ≠ '\r') ∧ Function.Injective Text.quote ∧
    (∀ args look v p text stdout, Lists args look v p text stdout →
      ∃ unit ts, tokenize text v p unit = .ok ts ∧ (∀ t ∈ ts, t.IsListable) ∧ stdout = listing ts) ∧
    ∀ args args' look look' v v' p p' text text' stdout, v ≠ .ignore → v' ≠ .ignore → p ≠ .skip → p' ≠ .skip →
      Lists args look v p text stdout → Lists args' look' v' p' text' stdout → text = text' := by
  refine ⟨fun ts hts => readListing_listing hts, fun t ht => ?_, fun s c hc => ?_, Text.quote_injective,
    fun _ _ _ _ _ _ h => ?_, ?_⟩
  · obtain ⟨line, hline, hfeed, htabs, -⟩ := exists_line ht
    exact ⟨line, hline, hfeed, htabs⟩
  · rw [Text.quote, String.toList_ofList] at hc
    have hends := Text.endsField_of_mem_quoted c hc
    simpa [Text.endsField, and_assoc] using hends
  · obtain ⟨unit, ts, hts, hstdout⟩ := h.exists_tokens
    exact ⟨unit, ts, hts, isListable_of_tokenize hts, hstdout⟩
  · intro args args' look look' v v' p p' text text' stdout hv hv' hp hp' h h'
    obtain ⟨n, ts, hts, rfl⟩ := h.exists_tokens
    obtain ⟨n', ts', hts', hstdout⟩ := h'.exists_tokens
    have hchars := charsOf_of_listing hts hts' hstdout
    rw [charsOf_of_tokenize hv hp hts, charsOf_of_tokenize hv' hp' hts'] at hchars
    exact String.toList_injective hchars

/-- Two files that differ in their line breaks, read in two variants, with a tab, a backslash and a quote in their
lines: they have one listing, and one text. -/
theorem listing_decodable_breaks :
    let text := "it's\n\t\\\n"
    let look (path : String) : Outline.Found :=
      .file (if path = "a" then text else "it's\r\n\t\\\r\n").toUTF8.data.toList
    ∃ ts : List Token, readListing (listing ts) = some (ts.map Listed.ofToken) ∧
      Lists ["a"] look .space .after text (listing ts) ∧
      Lists ["b", "--variant", "spaces"] look .spaces .after text (listing ts) ∧
      ∀ text', Lists ["b", "--variant", "spaces"] look .spaces .after text' (listing ts) → text' = text := by
  intro text look
  let us := (Variant.spaces.scanner.scan text).filterMap Reply.token?
  let ts := (layout (wordConfig .after 0) none 0 [] (segments (wordConfig .after 0) us)).tokens
  have hfault : (layout (wordConfig .after 0) none 0 [] (segments (wordConfig .after 0) us)).fault = none := by
    decide +kernel
  have htokens {v : Variant} (hscan : v.scanner.scan text = Source.ofTokensUntil us none) :
      tokenize text v .after 0 = .ok ts := (tokenize_of_layout hscan).2 hfault
  have hspace := htokens (v := .space) (by decide +kernel)
  have hspaces := htokens (v := .spaces) (by decide +kernel)
  have ha : Lists ["a"] look .space .after text (listing ts) :=
    @lists_of_tokenize _ _ ⟨"a", some .space, some .after, some 0, false, false⟩ _ _ 0 text.toUTF8.data.toList _ _
      (by decide +kernel) rfl rfl rfl rfl rfl (by decide +kernel) hspace
  have hb : Lists ["b", "--variant", "spaces"] look .spaces .after text (listing ts) :=
    @lists_of_tokenize _ _ ⟨"b", some .spaces, some .after, some 0, false, false⟩ _ _ 0
      "it's\r\n\t\\\r\n".toUTF8.data.toList _ _ (by decide +kernel) rfl rfl rfl rfl rfl (by decide +kernel) hspaces
  obtain ⟨hread, -, -, -, -, htext⟩ := listing_decodable
  exact ⟨ts, hread ts (isListable_of_tokenize hspace), ha, hb, fun text' h =>
    htext _ _ _ _ .spaces .space .after .after _ _ _ nofun nofun nofun nofun h ha⟩

end CommandLine
end Offside
