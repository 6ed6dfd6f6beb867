import Mathlib.Data.List.Forall2
import Offside.Proofs.Scanner.Places
import Offside.Proofs.Stream.LineByLine
/-!
# Indentation that line breaks carry

White space that a line begins with can stand in tokens of its own, or in the line break in front of it, behind its last
line feed.  Either way it counts for the same indentation (`measure_carrying`), wherever some of it already stands in
the line break, and also where there is none and the column has to do.  So a scan finds the same in both
(`scanFrom_carried`), and the streams over both give the same tokens, but for the white space itself and the values of
line breaks (`indents_carried`).
-/
namespace Offside

/-! ## Line breaks -/

/-- A token with a line feed in it, and no more than blanks behind the last one. -/
structure Token.IsBreak (t : Token) : Prop where
  feed : '\n' ∈ t.value.toList
  blank : (Text.lastLine t.value.toList).all Text.isBlankChar = true

instance (t : Token) : Decidable t.IsBreak :=
  decidable_of_iff ('\n' ∈ t.value.toList ∧ (Text.lastLine t.value.toList).all Text.isBlankChar = true)
    ⟨fun h => ⟨h.1, h.2⟩, fun h => ⟨h.feed, h.blank⟩⟩

/-- The same token with the values of others behind its own. -/
def Token.carrying (t : Token) (ts : List Token) : Token :=
  { t with value := String.join ((t :: ts).map Token.value) }

namespace Token

theorem length_charsOf (ts : List Token) : (charsOf ts).length = totalWidth ts := by
  induction ts with
  | nil => rfl
  | cons t ts ih => rw [charsOf_cons, List.length_append, ih, totalWidth, width, String.length_toList]

theorem isBlankChar_of_mem_charsOf {ts : List Token} (h : ∀ t ∈ ts, Text.isBlank t.value.toList = true) :
    ∀ c ∈ charsOf ts, Text.isBlankChar c = true := by
  intro c hc
  obtain ⟨t, ht, hc⟩ := List.mem_flatMap.1 hc
  have hblank := h t ht
  simp only [Text.isBlank, Bool.and_eq_true, List.all_eq_true] at hblank
  exact hblank.2 c hc

theorem carriedIndent_of_isBreak {t : Token} (h : t.IsBreak) :
    t.carriedIndent = (Text.lastLine t.value.toList).length := by
  have hfeed : t.value.toList.contains '\n' = true := List.contains_iff_mem.2 h.feed
  rw [carriedIndent, Text.trailingIndent, hfeed, h.blank]
  rfl

theorem carriedIndent_carrying {t : Token} (ht : t.IsBreak) {ts : List Token}
    (hts : ∀ u ∈ ts, Text.isBlank u.value.toList = true) :
    (t.carrying ts).carriedIndent = t.carriedIndent + totalWidth ts := by
  have hchars := isBlankChar_of_mem_charsOf hts
  have hvalue : (t.carrying ts).value.toList = t.value.toList ++ charsOf ts := toList_join_values (t :: ts)
  have hline : '\n' ∉ charsOf ts := fun hn => Text.ne_newline_of_blank (hchars _ hn) rfl
  have hlast : Text.lastLine (t.carrying ts).value.toList = Text.lastLine t.value.toList ++ charsOf ts := by
    rw [hvalue, Text.lastLine_append, if_neg hline]
  have hbreak : (t.carrying ts).IsBreak := by
    refine ⟨hvalue ▸ List.mem_append_left _ ht.feed, ?_⟩
    rw [hlast, List.all_append, ht.blank, List.all_eq_true.2 hchars]
    rfl
  rw [carriedIndent_of_isBreak hbreak, carriedIndent_of_isBreak ht, hlast, List.length_append, length_charsOf]

end Token

/-- **White space counts for the same indentation in its own tokens and in the line break in front of them.** -/
theorem LineScan.measure_carrying {newline : Token} (hbreak : newline.IsBreak) {whitespace : List Token}
    (hblank : ∀ t ∈ whitespace, Text.isBlank t.value.toList = true) (content : Token) :
    measure (newline.carrying whitespace) [] content = measure newline whitespace content := by
  have hcarried := Token.carriedIndent_carrying hbreak hblank
  unfold measure
  rw [hcarried]
  cases whitespace with
  | nil => simp [Token.totalWidth]
  | cons t whitespace =>
    -- white space is not empty, so neither of the two is left to the column
    have hpos : 0 < Token.totalWidth (t :: whitespace) := by
      have ht := hblank t List.mem_cons_self
      simp only [Text.isBlank, Bool.and_eq_true, Bool.not_eq_true', List.isEmpty_eq_false_iff] at ht
      have hlength := List.length_pos_iff.2 ht.1
      rw [String.length_toList] at hlength
      rw [Token.totalWidth, Token.width]
      omega
    have hne : (newline.carriedIndent + Token.totalWidth (t :: whitespace) == 0) = false :=
      beq_false_of_ne (by omega)
    rw [List.isEmpty_nil, Bool.true_and, hne, List.isEmpty_cons, Bool.false_and]
    rfl

/-! ## Moving white space into line breaks -/

namespace Config

variable (cfg : Config)

/-- The white space that lines begin with, where the flag says that a line break was read and no more than white space
since. -/
def indents : Bool → List Token → List Token
  | _, [] => []
  | fresh, t :: ts =>
    match cfg.classify t with
    | .newline => indents true ts
    | .whitespace => if fresh then t :: indents true ts else indents false ts
    | .other => indents false ts

/-- The same tokens with the white space that lines begin with in the values of the line breaks in front of them. -/
def carried : Bool → List Token → List Token
  | _, [] => []
  | fresh, t :: ts =>
    match cfg.classify t with
    | .newline => t.carrying (ts.takeWhile cfg.isWhitespace) :: carried true ts
    | .whitespace => if fresh then carried true ts else t :: carried false ts
    | .other => t :: carried false ts

theorem indents_subset : ∀ (fresh : Bool) (ts : List Token), cfg.indents fresh ts ⊆ ts
  | _, [] => by simp [indents]
  | fresh, t :: ts => by
    have htail (fresh : Bool) : cfg.indents fresh ts ⊆ t :: ts := fun u hu =>
      List.mem_cons_of_mem _ (indents_subset fresh ts hu)
    unfold indents
    split
    · exact htail true
    · split
      · exact List.cons_subset.2 ⟨List.mem_cons_self, htail true⟩
      · exact htail false
    · exact htail false

end Config

/-- A line break of a source, and what may become of it: the same one with another value. -/
def Config.Revalued (cfg : Config) (source : List Token) (t t' : Token) : Prop :=
  t ∈ source ∧ cfg.classify t = .newline ∧ ∃ value, t' = { t with value }

/-- The first tokens are the last ones and those between, in this order each, but that line breaks of a source may have
other values. -/
inductive Sheds (cfg : Config) (source : List Token) : List Token → List Token → List Token → Prop
  | nil : Sheds cfg source [] [] []
  | kept (t : Token) {ts gone ts' : List Token} (h : Sheds cfg source ts gone ts') :
      Sheds cfg source (t :: ts) gone (t :: ts')
  | revalued {t t' : Token} (ht : cfg.Revalued source t t') {ts gone ts' : List Token}
      (h : Sheds cfg source ts gone ts') : Sheds cfg source (t :: ts) gone (t' :: ts')
  | shed (t : Token) {ts gone ts' : List Token} (h : Sheds cfg source ts gone ts') :
      Sheds cfg source (t :: ts) (t :: gone) ts'

namespace Sheds

variable {cfg : Config} {source : List Token}

theorem append {ts ts' gone us us' lost : List Token} (h : Sheds cfg source ts gone ts')
    (h' : Sheds cfg source us lost us') : Sheds cfg source (ts ++ us) (gone ++ lost) (ts' ++ us') := by
  induction h with
  | nil => exact h'
  | kept t _ ih => exact .kept t ih
  | revalued ht _ ih => exact .revalued ht ih
  | shed t _ ih => exact .shed t ih

theorem refl (cfg : Config) (source : List Token) : ∀ ts : List Token, Sheds cfg source ts [] ts
  | [] => .nil
  | t :: ts => .kept t (refl cfg source ts)

theorem all (cfg : Config) (source : List Token) : ∀ ts : List Token, Sheds cfg source ts ts []
  | [] => .nil
  | t :: ts => .shed t (all cfg source ts)

theorem mono {source' : List Token} (hsub : source ⊆ source') {ts gone ts' : List Token}
    (h : Sheds cfg source ts gone ts') : Sheds cfg source' ts gone ts' := by
  induction h with
  | nil => exact .nil
  | kept t _ ih => exact .kept t ih
  | revalued ht _ ih => exact .revalued ⟨hsub ht.1, ht.2⟩ ih
  | shed t _ ih => exact .shed t ih

/-- What no token of the source is, and none of the tokens shed, is the same in both. -/
theorem filter_eq {p : Token → Bool} (hp : ∀ t ∈ source, ∀ value, p { t with value } = false) {ts gone ts' : List Token}
    (h : Sheds cfg source ts gone ts') (hgone : ∀ t ∈ gone, p t = false) : ts'.filter p = ts.filter p := by
  induction h with
  | nil => rfl
  | kept t _ ih => rw [List.filter_cons, List.filter_cons, ih hgone]
  | @revalued t t' ht ts gone ts' _ ih =>
    obtain ⟨hmem, -, value, rfl⟩ := ht
    rw [List.filter_cons_of_neg (by simp [hp t hmem value]), List.filter_cons_of_neg (by simp [hp t hmem t.value]),
      ih hgone]
  | shed t _ ih =>
    obtain ⟨ht, hgone⟩ := List.forall_mem_cons.1 hgone
    rw [List.filter_cons_of_neg (by simp [ht]), ih hgone]

end Sheds

/-! ## Scans -/

/-- A blank line that has lost its white space to the line break in front of it. -/
def Config.LineShed (cfg : Config) (source : List Token) (line line' : List Token × Token) : Prop :=
  line'.1 = [] ∧ cfg.Revalued source line.2 line'.2

theorem Config.LineShed.mono {cfg : Config} {source source' : List Token} (hs : source ⊆ source')
    {line line' : List Token × Token} (h : cfg.LineShed source line line') : cfg.LineShed source' line line' :=
  ⟨h.1, hs h.2.1, h.2.2⟩

/-- Two scans come out alike, the second one without the white space that the first one and the tokens behind it have
between line breaks and contents. -/
inductive ScanResult.Alike (cfg : Config) (source gone : List Token) : ScanResult → ScanResult → Prop
  | found {scan scan' : LineScan Token} {ended : Bool} {rest : List Token} (hlength : scan'.length = scan.length)
      (hcontent : scan'.content = scan.content)
      (hlines : List.Forall₂ (cfg.LineShed source) scan.blankLines scan'.blankLines)
      (hwhitespace : scan'.whitespace = [])
      (hgone : gone = scan.blankLines.flatMap Prod.fst ++ scan.whitespace ++ cfg.indents false rest)
      (hrest : rest <:+ source) (hended : ended = true → rest = []) :
      Alike cfg source gone (.found scan ended (Source.ofTokens rest))
        (.found scan' ended (Source.ofTokens (cfg.carried false rest)))
  | broken {f : Fault} {rest : List Token} :
      Alike cfg source gone (.broken f (Source.ofTokens rest)) (.broken f (Source.ofTokens (cfg.carried false rest)))

variable {cfg : Config}

theorem ScanResult.Alike.mono {source source' gone : List Token} {r r' : ScanResult} (hs : source <:+ source')
    (h : r.Alike cfg source gone r') : r.Alike cfg source' gone r' := by
  cases h with
  | broken => exact .broken
  | found hlength hcontent hlines hwhitespace hgone hrest hended =>
    have hlines' := hlines.imp fun _ _ => Config.LineShed.mono hs.subset
    exact .found hlength hcontent hlines' hwhitespace hgone (hrest.trans hs) hended

theorem ScanResult.Alike.behindBlank {source gone : List Token} {t t' : Token} {r r' : ScanResult}
    (ht : cfg.Revalued (t :: source) t t') (h : r.Alike cfg source gone r') (whitespace : List Token) :
    (r.behindBlank whitespace t).Alike cfg (t :: source) (whitespace ++ gone) (r'.behindBlank [] t') := by
  cases h.mono (List.suffix_cons t source) with
  | broken => exact .broken
  | found hlength hcontent hlines hwhitespace hgone hrest hended =>
    refine .found hlength hcontent (.cons ⟨rfl, ht⟩ hlines) hwhitespace ?_ hrest hended
    simp [LineScan.behindBlank, hgone]

/-- **A scan finds the same where the line breaks carry the white space behind them.**  The induction is on the tokens;
the white space read so far in a line is what the line break in front of it has taken. -/
theorem scanFrom_carried (ts : List Token) : (∀ t ∈ ts, cfg.classify t = .newline → t.IsBreak) →
    (∀ t ∈ cfg.indents true ts, Text.isBlank t.value.toList = true) →
    ∀ {newline : Token} {whitespace : List Token}, newline.IsBreak →
      (∀ t ∈ whitespace, Text.isBlank t.value.toList = true) →
      (scanFrom cfg newline whitespace (Source.ofTokens ts)).Alike cfg ts (whitespace ++ cfg.indents true ts)
        (scanFrom cfg (newline.carrying (whitespace ++ ts.takeWhile cfg.isWhitespace)) []
          (Source.ofTokens (cfg.carried true ts))) := by
  induction ts with
  | nil =>
    intro _ _ newline whitespace _ _
    have halike : ScanResult.Alike cfg [] (whitespace ++ []) (.found ⟨.int 0, [], whitespace, none⟩ true [])
        (.found ⟨.int 0, [], [], none⟩ true []) :=
      @ScanResult.Alike.found cfg [] _ _ _ true [] rfl rfl .nil rfl (by simp [Config.indents]) (List.suffix_refl _)
        (fun _ => rfl)
    exact halike
  | cons t ts ih =>
    intro hbreaks hblank newline whitespace hnewline hwhitespace
    have hbreaks' : ∀ u ∈ ts, cfg.classify u = .newline → u.IsBreak := fun u hu => hbreaks u (List.mem_cons_of_mem _ hu)
    cases hc : cfg.classify t with
    | newline =>
      have hcarrying (run : List Token) : cfg.classify (t.carrying run) = .newline :=
        (cfg.classify_eq_newline _).2 ((cfg.classify_eq_newline t).1 hc)
      have hstop : (t :: ts).takeWhile cfg.isWhitespace = [] :=
        List.takeWhile_cons_of_neg (by simp [isWhitespace_of_newline hc])
      simp only [Config.indents, Config.carried, hc] at hblank ⊢
      have h := ih hbreaks' hblank (hbreaks t List.mem_cons_self hc) (List.forall_mem_nil _)
      rw [List.nil_append, List.nil_append] at h
      have ht : cfg.Revalued (t :: ts) t (t.carrying (ts.takeWhile cfg.isWhitespace)) :=
        ⟨List.mem_cons_self, hc, _, rfl⟩
      rw [Source.ofTokens_cons, Source.ofTokens_cons, scanFrom_newline _ _ _ hc, scanFrom_newline _ _ _ (hcarrying _)]
      exact h.behindBlank ht whitespace
    | whitespace =>
      have hrun : (t :: ts).takeWhile cfg.isWhitespace = t :: ts.takeWhile cfg.isWhitespace :=
        List.takeWhile_cons_of_pos (by simp [Config.isWhitespace, hc])
      simp only [Config.indents, Config.carried, hc, if_pos] at hblank ⊢
      obtain ⟨ht, hblank⟩ := List.forall_mem_cons.1 hblank
      have hwhitespace' : ∀ u ∈ whitespace ++ [t], Text.isBlank u.value.toList = true := by
        simpa [or_imp, forall_and] using ⟨hwhitespace, ht⟩
      have h := ih hbreaks' hblank hnewline hwhitespace'
      simp only [List.append_assoc, List.singleton_append] at h
      rw [hrun, Source.ofTokens_cons, scanFrom_whitespace _ _ _ hc]
      exact h.mono (List.suffix_cons t ts)
    | other =>
      have hstop : (t :: ts).takeWhile cfg.isWhitespace = [] :=
        List.takeWhile_cons_of_neg (by simp [Config.isWhitespace, hc])
      simp only [Config.indents, Config.carried, hc]
      rw [hstop, List.append_nil]
      rw [Source.ofTokens_cons, Source.ofTokens_cons]
      cases hk : cfg.classOf t with
      | error e =>
        rw [scanFrom_unknown _ _ _ hk, scanFrom_unknown _ _ _ hk]
        exact .broken
      | ok c =>
        obtain rfl : c = .other := (Config.classify_of_classOf hk).symm.trans hc
        have hcarrying := LineScan.measure_carrying hnewline hwhitespace t
        cases hm : LineScan.measure newline whitespace t with
        | error e =>
          rw [scanFrom_unmeasured _ _ _ hk hm, scanFrom_unmeasured _ _ _ hk (hcarrying.trans hm)]
          exact .broken
        | ok length =>
          rw [scanFrom_content _ _ _ hk hm, scanFrom_content _ _ _ hk (hcarrying.trans hm)]
          exact .found rfl rfl .nil rfl (by simp) (List.suffix_cons _ _) fun h => absurd h Bool.false_ne_true

/-! ## Streams -/

/-- What comes out under a policy of white space that lines begin with. -/
def Policy.shown : Policy → List Token → List Token
  | .skip, _ => []
  | _, ts => ts

theorem Policy.shown_append (p : Policy) (ts us : List Token) : p.shown (ts ++ us) = p.shown ts ++ p.shown us := by
  cases p <;> rfl

theorem Policy.shown_subset (p : Policy) (ts : List Token) : p.shown ts ⊆ ts := by
  cases p
  · exact List.Subset.refl ts
  · exact List.Subset.refl ts
  · exact List.nil_subset ts

theorem Policy.shown_nil (p : Policy) : p.shown [] = [] := by
  cases p <;> rfl

section
variable {source : List Token} {lines lines' : List (List Token × Token)}
  (hlines : List.Forall₂ (cfg.LineShed source) lines lines')
include hlines

theorem sheds_lines : Sheds cfg source (lines.flatMap (fun line => line.1 ++ [line.2])) (lines.flatMap Prod.fst)
    (lines'.flatMap (fun line => line.1 ++ [line.2])) := by
  induction hlines with
  | nil => exact .nil
  | @cons line line' lines lines' hline _ ih =>
    obtain ⟨hempty, hbreak⟩ := hline
    have hone : Sheds cfg source (line.1 ++ [line.2]) line.1 [line'.2] := by
      simpa using (Sheds.all cfg source line.1).append (.revalued hbreak .nil)
    rw [List.flatMap_cons, List.flatMap_cons, List.flatMap_cons, hempty]
    exact hone.append ih

theorem sheds_breaks : Sheds cfg source (lines.flatMap (fun line => [line.2])) []
    (lines'.flatMap (fun line => [line.2])) := by
  induction hlines with
  | nil => exact .nil
  | cons hline _ ih => exact .revalued hline.2 ih

end

/-- **The tokens of a scan come out alike**, but for the white space that was moved. -/
theorem sheds_arrange {source : List Token} (policy : Policy) {newline newline' : Token} {scan scan' : LineScan Token}
    (hnewline : cfg.Revalued source newline newline') (hcontent : scan'.content = scan.content)
    (hlines : List.Forall₂ (cfg.LineShed source) scan.blankLines scan'.blankLines) (hwhitespace : scan'.whitespace = [])
    (markers : List Token) :
    Sheds cfg source (arrange policy newline scan markers)
      (policy.shown (scan.blankLines.flatMap Prod.fst ++ scan.whitespace)) (arrange policy newline' scan' markers) := by
  have hkept := Sheds.refl cfg source (markers ++ scan.content.toList)
  have hlost := Sheds.all cfg source scan.whitespace
  unfold arrange Policy.shown
  rw [hcontent, hwhitespace]
  cases policy with
  | before =>
    have h := (sheds_lines hlines).append (hlost.append hkept)
    exact .revalued hnewline (by simpa using h)
  | after =>
    have hfront := (Sheds.refl cfg source markers).append (hlost.append (Sheds.refl cfg source scan.content.toList))
    exact .revalued hnewline (by simpa using (sheds_lines hlines).append hfront)
  | skip => exact .revalued hnewline (by simpa using (sheds_breaks hlines).append hkept)

/-- A drained stream and the one whose line breaks carry the white space that the lines of its source begin with. -/
structure Drained.Alike (cfg : Config) (source shown : List Token) (d d' : Drained) : Prop where
  tokens : ∃ gone, Sheds cfg source d.tokens gone d'.tokens ∧ gone <+: shown ∧ (d.fault = none → gone = shown)
  fault : d'.fault = d.fault
  stream : d'.stream = d.stream
  notes : d'.notes = d.notes

namespace Stream

theorem scanNotes_congr (before : Levels) {scan scan' : LineScan Token} (hlength : scan'.length = scan.length)
    (hcontent : scan'.content = scan.content) : scanNotes before scan' = scanNotes before scan := by
  funext outcome
  unfold scanNotes
  rw [hlength, hcontent]

/-- **A stream gives the same where the line breaks carry the white space behind them.**  The recursion is over the
tokens that it passes on and the scans between them. -/
theorem drain_carried (ts : List Token) (hbreaks : ∀ t ∈ ts, cfg.classify t = .newline → t.IsBreak)
    (hblank : ∀ t ∈ cfg.indents false ts, Text.isBlank t.value.toList = true) {s : Stream}
    (hc : s.config = some cfg) (he : s.stopped = none) (hb : s.buffer = []) (hx : s.exhausted = false) :
    (s.drain (Source.ofTokens ts)).Alike cfg ts (s.policy.shown (cfg.indents false ts))
      (s.drain (Source.ofTokens (cfg.carried false ts))) := by
  match ts, hbreaks, hblank with
  | [], _, _ =>
    refine ⟨⟨[], Sheds.refl cfg [] _, List.nil_prefix, fun _ => ?_⟩, rfl, rfl, rfl⟩
    rw [Config.indents, Policy.shown_nil]
  | t :: ts, hbreaks, hblank =>
    have hbreaks' : ∀ u ∈ ts, cfg.classify u = .newline → u.IsBreak := fun u hu => hbreaks u (List.mem_cons_of_mem _ hu)
    have hpassed (hclass : cfg.classify t ≠ .newline)
        (hindents : cfg.indents false (t :: ts) = cfg.indents false ts)
        (hcarried : cfg.carried false (t :: ts) = t :: cfg.carried false ts) :
        (s.drain (Source.ofTokens (t :: ts))).Alike cfg (t :: ts) (s.policy.shown (cfg.indents false (t :: ts)))
          (s.drain (Source.ofTokens (cfg.carried false (t :: ts)))) := by
      rw [hindents] at hblank
      rw [hindents, hcarried, Source.ofTokens_cons, Source.ofTokens_cons]
      cases hk : cfg.classOf t with
      | error e =>
        rw [drain_of_unknown hc he hb hx hk, drain_of_unknown hc he hb hx hk]
        exact ⟨⟨[], .nil, List.nil_prefix, fun h => nomatch h⟩, rfl, rfl, rfl⟩
      | ok c =>
        obtain ⟨⟨gone, hsheds, hfront, hall⟩, hfault, hstream, hnotes⟩ := drain_carried ts hbreaks' hblank hc he hb hx
        have hmono := hsheds.mono (List.subset_cons_self t ts)
        have hknown : cfg.knows t = true := (Config.classOf_eq_ok_iff.1 hk).1
        rw [drain_of_passed hc he hb hx hclass hknown, drain_of_passed hc he hb hx hclass hknown]
        exact ⟨⟨gone, .kept t hmono, hfront, hall⟩, hfault, hstream, hnotes⟩
    cases hclass : cfg.classify t with
    | whitespace =>
      exact hpassed (by simp [hclass]) (by simp [Config.indents, hclass]) (by simp [Config.carried, hclass])
    | other =>
      exact hpassed (by simp [hclass]) (by simp [Config.indents, hclass]) (by simp [Config.carried, hclass])
    | newline =>
      have hclass' : cfg.classify (t.carrying (ts.takeWhile cfg.isWhitespace)) = .newline :=
        (cfg.classify_eq_newline _).2 ((cfg.classify_eq_newline t).1 hclass)
      simp only [Config.indents, Config.carried, hclass] at hblank ⊢
      have halike := scanFrom_carried ts hbreaks' hblank (hbreaks t List.mem_cons_self hclass) (List.forall_mem_nil _)
      rw [List.nil_append, List.nil_append] at halike
      have ht : cfg.Revalued (t :: ts) t (t.carrying (ts.takeWhile cfg.isWhitespace)) :=
        ⟨List.mem_cons_self, hclass, _, rfl⟩
      generalize t.carrying (ts.takeWhile cfg.isWhitespace) = t' at halike hclass' ht ⊢
      rw [Source.ofTokens_cons, Source.ofTokens_cons]
      generalize hs : scanFrom cfg t [] (Source.ofTokens ts) = r at halike
      generalize hs' : scanFrom cfg t' [] (Source.ofTokens (cfg.carried true ts)) = r' at halike
      cases halike with
      | broken =>
        rw [drain_of_broken hc he hb hx hclass hs, drain_of_broken hc he hb hx hclass' hs']
        exact ⟨⟨[], .nil, List.nil_prefix, nofun⟩, rfl, rfl, rfl⟩
      | @found scan scan' ended rest hlength hcontent hlines hwhitespace hgone hrest hended =>
        have hreconcile : s.levels.reconcile cfg.kinds scan'.length scan'.content =
            s.levels.reconcile cfg.kinds scan.length scan.content := by rw [hlength, hcontent]
        have hnotes (outcome : Except Fault (List Token)) :
            scanNotes s.levels scan' outcome = scanNotes s.levels scan outcome := by
          rw [scanNotes_congr s.levels hlength hcontent]
        obtain ⟨⟨result, levels⟩, hm⟩ : ∃ o, s.levels.reconcile cfg.kinds scan.length scan.content = o := ⟨_, rfl⟩
        cases result with
        | error f =>
          rw [drain_of_scan_fault hc he hb hx hclass hs hm,
            drain_of_scan_fault hc he hb hx hclass' hs' (hreconcile.trans hm), hnotes]
          exact ⟨⟨[], .nil, List.nil_prefix, nofun⟩, rfl, rfl, rfl⟩
        | ok markers =>
          rw [drain_of_scan hc he hb hx hclass hs hm, drain_of_scan hc he hb hx hclass' hs' (hreconcile.trans hm),
            hnotes]
          let behind : Stream := { s with levels, exhausted := ended }
          have hbehind : (behind.drain (Source.ofTokens rest)).Alike cfg rest (s.policy.shown (cfg.indents false rest))
              (behind.drain (Source.ofTokens (cfg.carried false rest))) := by
            cases ended with
            | true =>
              rw [hended rfl, Config.indents, Policy.shown_nil]
              exact ⟨⟨[], Sheds.refl cfg [] _, List.nil_prefix, fun _ => rfl⟩, rfl, rfl, rfl⟩
            | false =>
              have hblank' : ∀ u ∈ cfg.indents false rest, Text.isBlank u.value.toList = true := fun u hu =>
                hblank u (hgone ▸ List.mem_append_right _ hu)
              exact drain_carried (s := behind) rest (fun u hu => hbreaks' u (hrest.subset hu)) hblank' hc he hb rfl
          obtain ⟨⟨gone, hsheds, hfront, hall⟩, hfault, hstream, hnotes'⟩ := hbehind
          have hsub : rest ⊆ t :: ts := fun u hu => List.mem_cons_of_mem _ (hrest.subset hu)
          have hlines' := hlines.imp fun _ _ => Config.LineShed.mono (List.subset_cons_self t ts)
          have htokens := (sheds_arrange s.policy ht hcontent hlines' hwhitespace markers).append (hsheds.mono hsub)
          rw [hgone, Policy.shown_append]
          exact ⟨⟨_, htokens, (List.prefix_append_right_inj _).2 hfront, fun h => by rw [hall h]⟩, hfault, hstream,
            congrArg (scanNotes s.levels scan (.ok markers) ++ ·) hnotes'⟩
termination_by ts.length
decreasing_by
  · exact Nat.lt_succ_self _
  · exact Nat.lt_succ_of_le hrest.length_le

/-- **Indentation that line breaks carry counts like white space of its own.**  In a list of tokens, let every line
break have a line feed and no more than blanks behind the last one, and let all white space that lines begin with be
blanks.  Moved into the line breaks in front of it, this white space is missing among the tokens that come out, all of
it if there is no fault, or none where the policy skips it anyway; but for that, and for the values of line breaks, the
tokens are the same in the same order.  So are the markers, the fault, the levels and the notes. -/
theorem indents_carried (cfg : Config) (ts : List Token)
    (hbreaks : ∀ t ∈ ts, cfg.classify t = .newline → t.IsBreak)
    (hblank : ∀ t ∈ cfg.indents false ts, Text.isBlank t.value.toList = true) :
    let d := (ofConfig cfg).drain (Source.ofTokens ts)
    let d' := (ofConfig cfg).drain (Source.ofTokens (cfg.carried false ts))
    let shown := cfg.policy.shown (cfg.indents false ts)
    (∃ gone, Sheds cfg ts d.tokens gone d'.tokens ∧ gone <+: shown ∧ (d.fault = none → gone = shown)) ∧
      ((∀ t ∈ ts, t.isMarker = false) → d'.tokens.filter Token.isMarker = d.tokens.filter Token.isMarker) ∧
      d'.fault = d.fault ∧ d'.stream = d.stream ∧ d'.notes = d.notes := by
  intro d d' shown
  obtain ⟨⟨gone, hsheds, hfront, hall⟩, hfault, hstream, hnotes⟩ :=
    drain_carried ts hbreaks hblank (s := ofConfig cfg) rfl rfl rfl rfl
  refine ⟨⟨gone, hsheds, hfront, hall⟩, fun hraw => ?_, hfault, hstream, hnotes⟩
  refine hsheds.filter_eq (fun t ht _ => hraw t ht) fun t ht => ?_
  exact hraw t (cfg.indents_subset false ts (cfg.policy.shown_subset _ (hfront.subset ht)))

/-- White space in a token, in a line break, and in neither, up to a line that fits no level. -/
theorem indents_carried_misaligned :
    (∀ t ∈ misalignedTokens, (wordConfig .before 0).classify t = .newline → t.IsBreak) ∧
    (∀ t ∈ (wordConfig .before 0).indents false misalignedTokens, Text.isBlank t.value.toList = true) ∧
    let carried : List Token :=
      [.inColumn "WORD" "a" 1, .inColumn "NL" "\n    " 2, .inColumn "WORD" "b" 5, .inColumn "NL" "\n" 6,
        .inColumn "NL" "\n        " 1, .inColumn "WORD" "c" 9, .inColumn "NL" "\n" 10, .inColumn "WORD" "d" 7,
        .inColumn "WORD" "e" 8]
    let d (ts : List Token) := (ofConfig (wordConfig .before 0)).drain (Source.ofTokens ts)
    (d carried).tokens.filter Token.isMarker = (d misalignedTokens).tokens.filter Token.isMarker ∧
      (d carried).fault = (d misalignedTokens).fault := by
  have hbreaks : ∀ t ∈ misalignedTokens, (wordConfig .before 0).classify t = .newline → t.IsBreak := by decide +kernel
  have hblank : ∀ t ∈ (wordConfig .before 0).indents false misalignedTokens, Text.isBlank t.value.toList = true := by
    decide +kernel
  obtain ⟨-, hmarkers, hfault, -⟩ := indents_carried (wordConfig .before 0) misalignedTokens hbreaks hblank
  exact ⟨hbreaks, hblank, hmarkers (by decide +kernel), hfault⟩

end Stream

end Offside
