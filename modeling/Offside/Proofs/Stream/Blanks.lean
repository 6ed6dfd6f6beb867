import Offside.Proofs.Scanner.Variants
import Offside.Proofs.Stream.Landings
/-!
# Blanks in a layout

A layout does not look into the blanks between two other tokens, beyond the indentation they make up.  So where some
rewriting touches runs of blanks alone (`RewritesBlanks`) and every window keeps its indentation, the layout of the
rewritten tokens is the rewritten layout (`layout_rewrite`).
-/
namespace Offside

/-- A rewriting of runs of blanks, each on its own: every other token stays as it is, and so does what stands on either
side of it. -/
structure RewritesBlanks (f : List Token → List Token) : Prop where
  nil : f [] = []
  blanks : ∀ {run : List Token}, (∀ t ∈ run, t.isBlank = true) → ∀ t ∈ f run, t.isBlank = true
  cons : ∀ {run : List Token} {t : Token}, (∀ u ∈ run, u.isBlank = true) → t.isBlank = false → ∀ ts,
    f (run ++ t :: ts) = f run ++ t :: f ts

theorem mergeBlanks_rewrites : RewritesBlanks mergeBlanks where
  nil := by rw [mergeBlanks]
  blanks := by
    intro run hrun
    cases run with
    | nil => simp [mergeBlanks]
    | cons u run =>
      rw [mergeBlanks_blanks hrun]
      simpa using show (u.joined run).isBlank = true from hrun u List.mem_cons_self
  cons := by
    intro run t hrun ht ts
    cases run with
    | nil => rw [List.nil_append, mergeBlanks_cons ht, mergeBlanks, List.nil_append]
    | cons u run =>
      rw [mergeBlanks_run hrun (by simpa using ht), mergeBlanks_cons ht, mergeBlanks_blanks hrun]
      rfl

theorem dropBlanks_rewrites : RewritesBlanks dropBlanks where
  nil := rfl
  blanks := by
    intro run hrun
    have hdrop := dropBlanks_run hrun []
    rw [List.append_nil] at hdrop
    rw [hdrop]
    simp [dropBlanks]
  cons := by
    intro run t hrun ht ts
    have hdrop := dropBlanks_run hrun []
    rw [List.append_nil] at hdrop
    rw [dropBlanks_run hrun, dropBlanks_cons ht, hdrop]
    rfl

/-- Tokens cut at those that are no blanks. -/
inductive Runs : List Token → Prop where
  | run {run : List Token} (h : ∀ t ∈ run, t.isBlank = true) : Runs run
  | cons {run : List Token} {t : Token} {rest : List Token} (hrun : ∀ u ∈ run, u.isBlank = true)
      (ht : t.isBlank = false) (h : Runs rest) : Runs (run ++ t :: rest)

theorem runs : ∀ ts : List Token, Runs ts
  | [] => .run (by simp)
  | t :: ts => by
    by_cases ht : t.isBlank = true
    · cases runs ts with
      | run h => exact .run (List.forall_mem_cons.2 ⟨ht, h⟩)
      | cons hrun hu h => exact .cons (List.forall_mem_cons.2 ⟨ht, hrun⟩) hu h
    · have h : Runs ([] ++ t :: ts) := .cons (by simp) (Bool.eq_false_iff.2 ht) (runs ts)
      exact h

namespace RewritesBlanks

variable {f : List Token → List Token} (hf : RewritesBlanks f) {t : Token} {ts : List Token}
include hf

/-- A token other than a blank parts what is rewritten. -/
theorem append_cons (ht : t.isBlank = false) (ts xs : List Token) : f (xs ++ t :: ts) = f xs ++ t :: f ts := by
  induction runs xs with
  | run h => exact hf.cons h ht ts
  | @cons run u rest hrun hu _ ih =>
    rw [List.append_assoc, List.cons_append, hf.cons hrun hu, ih, hf.cons hrun hu, List.append_assoc]
    rfl

theorem cons_eq (ht : t.isBlank = false) (ts : List Token) : f (t :: ts) = t :: f ts := by
  have hcons := hf.append_cons ht ts []
  rwa [List.nil_append, hf.nil] at hcons

/-- Tokens other than blanks stay as they are. -/
theorem append {ms : List Token} (hms : ∀ t ∈ ms, t.isBlank = false) (ts : List Token) : f (ms ++ ts) = ms ++ f ts := by
  induction ms with
  | nil => rfl
  | cons m ms ih =>
    obtain ⟨hm, hms⟩ := List.forall_mem_cons.1 hms
    rw [List.cons_append, hf.cons_eq hm, ih hms, List.cons_append]

theorem eq_self {ms : List Token} (hms : ∀ t ∈ ms, t.isBlank = false) : f ms = ms := by
  have happend := hf.append hms []
  rwa [List.append_nil, hf.nil, List.append_nil] at happend

theorem append_of_front (hts : ∀ t ∈ ts.head?, t.isBlank = false) (xs : List Token) : f (xs ++ ts) = f xs ++ f ts := by
  cases ts with
  | nil => rw [List.append_nil, hf.nil, List.append_nil]
  | cons t ts =>
    rw [hf.append_cons (hts t rfl), hf.cons_eq (hts t rfl)]

theorem mem (xs : List Token) : ∀ u ∈ f xs, u.isBlank = true ∨ u ∈ xs := by
  induction runs xs with
  | run h => exact fun u hu => .inl (hf.blanks h u hu)
  | @cons run t rest hrun ht _ ih =>
    intro u hu
    rw [hf.cons hrun ht, List.mem_append, List.mem_cons] at hu
    rcases hu with hu | rfl | hu
    · exact .inl (hf.blanks hrun u hu)
    · exact .inr (by simp)
    · exact (ih u hu).imp_right (by simp; tauto)

theorem dropBlanks_eq (xs : List Token) : dropBlanks (f xs) = dropBlanks xs := by
  induction runs xs with
  | @run run h =>
    have hnone {run : List Token} (h : ∀ t ∈ run, t.isBlank = true) : dropBlanks run = [] :=
      List.filter_eq_nil_iff.2 fun t ht => by simp [h t ht]
    rw [hnone h, hnone (hf.blanks h)]
  | @cons run t rest hrun ht _ ih =>
    rw [hf.cons hrun ht, dropBlanks_run hrun, dropBlanks_run (hf.blanks hrun), dropBlanks_cons ht, dropBlanks_cons ht, ih]

/-- The blanks at the end of some tokens are rewritten on their own. -/
theorem at_end (xs : List Token) : (f xs).rdropWhile Token.isBlank = f (xs.rdropWhile Token.isBlank) ∧
    (f xs).rtakeWhile Token.isBlank = f (xs.rtakeWhile Token.isBlank) := by
  have hrun {run : List Token} (h : ∀ t ∈ run, t.isBlank = true) :
      run.rdropWhile Token.isBlank = [] ∧ run.rtakeWhile Token.isBlank = run :=
    ⟨List.rdropWhile_eq_nil_iff.2 h, List.rtakeWhile_eq_self_iff.2 h⟩
  induction runs xs with
  | @run run h =>
    obtain ⟨hdrop, htake⟩ := hrun h
    obtain ⟨hdrop', htake'⟩ := hrun (hf.blanks h)
    rw [hdrop, htake, hdrop', htake', hf.nil]
    exact ⟨rfl, rfl⟩
  | @cons run t rest hblanks ht _ ih =>
    obtain ⟨hdrop, htake⟩ := ih
    rw [hf.cons hblanks ht, rdropWhile_append_cons ht, rdropWhile_append_cons ht, rtakeWhile_append_cons ht,
      rtakeWhile_append_cons ht, hdrop, htake, hf.cons hblanks ht]
    exact ⟨rfl, rfl⟩

/-- What stands in front of blanks at the end ends with no blank, and so is rewritten on its own. -/
theorem append_rdropWhile (xs ts : List Token) :
    f (xs.rdropWhile Token.isBlank ++ ts) = f (xs.rdropWhile Token.isBlank) ++ f ts := by
  induction xs using List.reverseRecOn with
  | nil => rw [List.rdropWhile_nil, hf.nil]; rfl
  | append_singleton xs u ih =>
    by_cases hu : u.isBlank = true
    · rwa [List.rdropWhile_concat_pos _ _ _ hu]
    · have hu' : u.isBlank = false := Bool.eq_false_iff.2 hu
      rw [List.rdropWhile_concat_neg _ _ _ hu, List.append_assoc, List.singleton_append, hf.append_cons hu',
        hf.append_cons hu', hf.nil, List.append_assoc, List.singleton_append]

end RewritesBlanks

/-! ## Windows of words -/

variable {policy : Policy} {n : Nat}

theorem isWhitespace_wordConfig (policy : Policy) (n : Nat) : (wordConfig policy n).isWhitespace = Token.isBlank := by
  funext t
  have hkey (s : String) : t.type.key = (TokenType.name s).key ↔ t.type = .name s := t.type.key_eq_name s
  have hne : (TokenType.name "WS").key ≠ (wordConfig policy n).kinds.newline.key := by
    show TokenType.Key.name "WS" ≠ .name "NL"
    decide
  unfold Config.isWhitespace Config.classify Token.isBlank
  by_cases ht : t.type = .name "WS"
  · rw [ht, if_neg hne]
    rfl
  · have hclass : (wordConfig policy n).whitespace.any (fun type => type.key == t.type.key) = false := by
      rw [wordConfig, List.any_cons, List.any_nil, Bool.or_false, beq_eq_false_iff_ne]
      exact fun h => ht ((hkey "WS").1 h.symm)
    rw [hclass, show (wordConfig policy n).whitespace.isEmpty = false from rfl, beq_eq_false_iff_ne.2 ht]
    by_cases hn : t.type.key = (wordConfig policy n).kinds.newline.key
    · rw [if_pos hn]
      rfl
    · rw [if_neg hn]
      rfl

theorem isWhitespace_dropBlanks (ts : List Token) :
    ∀ t ∈ dropBlanks ts, (wordConfig policy n).isWhitespace t = false := by
  intro t ht
  rw [isWhitespace_wordConfig]
  simpa using (List.mem_filter.1 ht).2

theorem isBlank_markersTo (unit depth : Nat) (opened : List Token) (content : Option Token) :
    ∀ m ∈ markersTo wordKinds unit depth opened content, m.isBlank = false :=
  forall_markersTo wordKinds unit depth opened content (fun _ _ => rfl) fun _ _ _ => rfl

/-- The parts of a window whose gap is rewritten. -/
theorem RewritesBlanks.window {f : List Token → List Token} (hf : RewritesBlanks f) (w : Window) :
    let w' : Window := { w with gap := f w.gap }
    let cfg := wordConfig policy n
    w'.blank cfg = f (w.blank cfg) ∧ w'.indent cfg = f (w.indent cfg) := by
  intro w' cfg
  simp only [Window.blank, Window.indent, cfg, isWhitespace_wordConfig]
  exact hf.at_end w.gap

/-- A window whose gap is rewritten is written out as the window was, rewritten. -/
theorem RewritesBlanks.written {f : List Token → List Token} (hf : RewritesBlanks f) {w : Window}
    (hnewline : w.newline.isBlank = false) (hcontent : ∀ t ∈ w.content, t.isBlank = false) {unit : Nat}
    {opened : List Token} :
    let w' : Window := { w with gap := f w.gap }
    let cfg := wordConfig policy n
    w'.length cfg = w.length cfg → ∀ ts, (w.content = none → ts = []) →
      f (w.written cfg unit opened ++ ts) = w'.written cfg unit opened ++ f ts := by
  intro w' cfg hlength ts hts
  obtain ⟨hblank, hindent⟩ : w'.blank cfg = f (w.blank cfg) ∧ w'.indent cfg = f (w.indent cfg) := hf.window w
  have hp : cfg.isWhitespace = Token.isBlank := isWhitespace_wordConfig policy n
  have hmarkers : ∀ m ∈ markersTo cfg.kinds unit (w.length cfg / unit) opened w.content, m.isBlank = false :=
    isBlank_markersTo unit (w.length cfg / unit) opened w.content
  have hkept : ∀ t ∈ w.content.toList, t.isBlank = false := by simpa using hcontent
  have hfront : ∀ t ∈ (w.content.toList ++ ts).head?, t.isBlank = false := by
    cases hc : w.content with
    | none => simp [hts hc]
    | some t => simpa [hc] using hcontent t
  have hsplit (us : List Token) : f (w.blank cfg ++ us) = f (w.blank cfg) ++ f us := by
    have hsplit := hf.append_rdropWhile w.gap us
    rwa [← hp] at hsplit
  have hpolicy : cfg.policy = policy := rfl
  simp only [Window.written, hlength, hblank, hindent, hpolicy]
  generalize markersTo cfg.kinds unit (w.length cfg / unit) opened w.content = markers at hmarkers ⊢
  have htail : f (markers ++ (w.content.toList ++ ts)) = markers ++ (w.content.toList ++ f ts) := by
    rw [hf.append hmarkers, hf.append hkept]
  cases policy with
  | before =>
    have hends : ∀ t ∈ (markers ++ (w.content.toList ++ ts)).head?, t.isBlank = false := by
      cases markers with
      | nil => exact hfront
      | cons m ms => simpa using hmarkers m List.mem_cons_self
    have hparts := hf.append_of_front hends (w.newline :: (w.blank cfg ++ w.indent cfg))
    rw [hf.cons_eq hnewline, hsplit, htail] at hparts
    simpa only [List.cons_append, List.append_assoc] using hparts
  | after =>
    have hends := hf.append_of_front hfront (w.indent cfg)
    rw [hf.append hkept] at hends
    simp only [List.cons_append, List.append_assoc]
    rw [hf.cons_eq hnewline, hsplit, hf.append hmarkers, hends]
  | skip =>
    have hkeep : ∀ t ∈ dropBlanks (w.blank cfg), t.isBlank = false := fun t ht => by
      simpa using (List.mem_filter.1 ht).2
    rw [hp]
    show f ((w.newline :: dropBlanks (w.blank cfg) ++ markers ++ w.content.toList) ++ ts) =
      (w.newline :: dropBlanks (f (w.blank cfg)) ++ markers ++ w.content.toList) ++ f ts
    rw [hf.dropBlanks_eq]
    simp only [List.cons_append, List.append_assoc]
    rw [hf.cons_eq hnewline, hf.append hkeep, htail]

/-! ## Layouts of words -/

theorem classify_eq_whitespace {t : Token} : (wordConfig policy n).classify t = .whitespace ↔ t.isBlank = true := by
  rw [← isWhitespace_wordConfig policy n, Config.isWhitespace, beq_iff_eq]

theorem isBlank_of_classify {t : Token} (h : (wordConfig policy n).classify t ≠ .whitespace) : t.isBlank = false :=
  Bool.eq_false_iff.2 (mt classify_eq_whitespace.2 h)

theorem segments_blanks {run : List Token} (hrun : ∀ t ∈ run, t.isBlank = true) (ts : List Token) :
    segments (wordConfig policy n) (run ++ ts) = run.map .token ++ segments (wordConfig policy n) ts := by
  induction run with
  | nil => rfl
  | cons t run ih =>
    obtain ⟨ht, hrun⟩ := List.forall_mem_cons.1 hrun
    have hclass : (wordConfig policy n).classify t ≠ .newline := by
      rw [classify_eq_whitespace.2 ht]
      nofun
    rw [List.cons_append, segments_of_not_newline hclass, ih hrun]
    rfl

theorem layout_tokens (cfg : Config) (failure : Option Fault) (unit : Nat) (opened : List Token)
    (segs : List Segment) : ∀ ts : List Token, layout cfg failure unit opened (ts.map .token ++ segs) =
      (layout cfg failure unit opened segs).behind ts
  | [] => rfl
  | t :: ts => by
    rw [List.map_cons, List.cons_append, layout, layout_tokens cfg failure unit opened segs ts]
    rfl

/-- A layout with its tokens rewritten, behind some more. -/
def Layout.rewritten (f : List Token → List Token) (run : List Token) (l : Layout) : Layout :=
  { l with tokens := f (run ++ l.tokens) }

section
variable {f : List Token → List Token} (hf : RewritesBlanks f) {t : Token}
include hf

theorem segments_rewrite (hc : (wordConfig policy n).classify t = .newline) (ts : List Token) :
    let cfg := wordConfig policy n
    segments cfg (t :: f ts) = .window ⟨t, f (ts.takeWhile cfg.isGap), (ts.dropWhile cfg.isGap).head?⟩ ::
      segments cfg (f (ts.dropWhile cfg.isGap).tail) := by
  intro cfg
  have hblank (u : Token) (hu : u.isBlank = true) : cfg.isGap u = true := by
    simp [Config.isGap, cfg, classify_eq_whitespace.2 hu]
  have hgap : ∀ u ∈ f (ts.takeWhile cfg.isGap), cfg.isGap u = true := fun u hu =>
    (hf.mem _ u hu).elim (hblank u) List.mem_takeWhile_imp
  have hfront := head_dropWhile cfg.isGap ts
  have hsplit := List.takeWhile_append_dropWhile (p := cfg.isGap) (l := ts)
  generalize ts.dropWhile cfg.isGap = rest at hfront hsplit
  generalize ts.takeWhile cfg.isGap = gap at hgap hsplit
  subst hsplit
  have hplain : ∀ u ∈ rest.head?, u.isBlank = false := fun u hu =>
    Bool.eq_false_iff.2 fun hb => Bool.false_ne_true ((hfront u hu).symm.trans (hblank u hb))
  rw [segments_of_newline hc, hf.append_of_front hplain]
  cases rest with
  | nil =>
    rw [hf.nil, List.append_nil, List.takeWhile_eq_self_iff.2 hgap, List.dropWhile_eq_nil_iff.2 hgap, List.head?_nil,
      List.tail_nil, hf.nil]
  | cons u more =>
    have hu : ¬ cfg.isGap u = true := Bool.eq_false_iff.1 (hfront u rfl)
    rw [hf.cons_eq (hplain u rfl), List.takeWhile_append_of_pos hgap, List.dropWhile_append_of_pos hgap,
      List.takeWhile_cons_of_neg hu, List.dropWhile_cons_of_neg hu, List.append_nil]
    rfl

theorem layout_window_rewrite (failure : Option Fault) {w : Window} {segs segs' : List Segment}
    (hnewline : w.newline.isBlank = false) (hcontent : ∀ t ∈ w.content, t.isBlank = false)
    (hend : w.content = none → segs = []) :
    let cfg := wordConfig policy n
    let w' : Window := { w with gap := f w.gap }
    w'.length cfg = w.length cfg →
      (∀ unit opened, layout cfg failure unit opened segs' = (layout cfg failure unit opened segs).rewritten f []) →
      ∀ unit opened, layout cfg failure unit opened (.window w' :: segs') =
        (layout cfg failure unit opened (.window w :: segs)).rewritten f [] := by
  intro cfg w' hlength hsegs unit opened
  have hopened (fixed : Nat) : w'.openedBehind cfg fixed opened = w.openedBehind cfg fixed opened := by
    rw [Window.openedBehind, hlength]
    rfl
  have hrefusal (fixed : Nat) : w'.refusal cfg fixed = w.refusal cfg fixed := by
    rw [Window.refusal, hlength]
    rfl
  have hwritten (fixed : Nat) (ts : List Token) (hts : w.content = none → ts = []) :
      f (w.written cfg fixed opened ++ ts) = w'.written cfg fixed opened ++ f ts :=
    hf.written hnewline hcontent hlength ts hts
  by_cases hopen : w.content ≠ none ∨ failure = none
  · have hopen' : w'.content ≠ none ∨ failure = none := hopen
    rw [layout_window hopen, layout_window hopen', hlength]
    dsimp only
    rw [hopened, hrefusal]
    by_cases hd : w.length cfg % fixedBy unit (w.length cfg) = 0
    · have hclosed (hc : w.content = none) : (layout cfg failure (fixedBy unit (w.length cfg))
          (w.openedBehind cfg (fixedBy unit (w.length cfg)) opened) segs).tokens = [] := by
        rw [hend hc, hopen.resolve_left fun h => h hc, layout, Window.openedBehind, Window.length_of_end hc, Nat.zero_div,
          openedAt_zero]
        rfl
      rw [if_pos hd, if_pos hd, hsegs]
      simp only [Layout.behind, Layout.rewritten, List.nil_append]
      rw [hwritten _ _ hclosed]
    · rw [if_neg hd, if_neg hd]
      simp [Layout.rewritten, hf.nil]
  · have hopen' : ¬ (w'.content ≠ none ∨ failure = none) := hopen
    rw [layout_window_cut hopen, layout_window_cut hopen', Layout.rewritten, List.nil_append, hf.nil]

end

theorem head_layout_window (cfg : Config) (failure : Option Fault) {w : Window} (h : w.newline.isBlank = false)
    (unit : Nat) (opened : List Token) (segs : List Segment) :
    ∀ t ∈ (layout cfg failure unit opened (.window w :: segs)).tokens.head?, t.isBlank = false := by
  by_cases hopen : w.content ≠ none ∨ failure = none
  · rw [layout_window hopen]
    dsimp only
    split
    · intro t ht
      have hhead : (w.written cfg (fixedBy unit (w.length cfg)) opened).head? = some w.newline := by
        unfold Window.written
        cases cfg.policy <;> rfl
      rw [Layout.behind, List.head?_append, hhead] at ht
      obtain rfl := Option.some.inj ht
      exact h
    · simp
  · rw [layout_window_cut hopen]
    simp

theorem layout_rewrite {f : List Token → List Token} (hf : RewritesBlanks f) (failure : Option Fault) (ts : List Token) :
    let cfg := wordConfig policy n
    Measured cfg ts → ∀ run, (∀ t ∈ run, t.isBlank = true) → Measured cfg (f (run ++ ts)) → ∀ unit opened,
      layout cfg failure unit opened (segments cfg (f (run ++ ts))) =
        (layout cfg failure unit opened (segments cfg ts)).rewritten f run := by
  intro cfg
  have hrunsegs {run : List Token} (hrun : ∀ t ∈ run, t.isBlank = true) (us : List Token) :
      segments cfg (f run ++ us) = (f run).map .token ++ segments cfg us := segments_blanks (hf.blanks hrun) us
  fun_induction segments cfg ts with
  | case1 =>
    intro _ run hrun _ unit opened
    have hsegs := hrunsegs hrun []
    rw [List.append_nil] at hsegs ⊢
    rw [hsegs, layout_tokens, segments]
    cases failure with
    | some g => simp [layout, Layout.behind, Layout.rewritten]
    | none =>
      have hclose : ∀ t ∈ opened.map cfg.kinds.closing, t.isBlank = false := by
        intro t ht
        obtain ⟨o, -, rfl⟩ := List.mem_map.1 ht
        rfl
      have happend := hf.append_of_front (fun t ht => hclose t (List.mem_of_mem_head? ht)) run
      rw [hf.eq_self hclose] at happend
      simp [layout, Layout.behind, Layout.rewritten, happend]
  | case2 t ts hc ih =>
    intro hts run hrun hfts unit opened
    have hclass : cfg.classify t ≠ .whitespace := by simp [hc]
    have ht : t.isBlank = false := isBlank_of_classify hclass
    let w : Window := ⟨t, ts.takeWhile cfg.isGap, (ts.dropWhile cfg.isGap).head?⟩
    let w' : Window := { w with gap := f w.gap }
    let rest := (ts.dropWhile cfg.isGap).tail
    have hsegs : segments cfg (t :: ts) = .window w :: segments cfg rest := segments_of_newline hc ts
    have hsegs' : segments cfg (t :: f ts) = .window w' :: segments cfg (f rest) := segments_rewrite hf hc ts
    have hall := hrunsegs hrun (t :: f ts)
    rw [hf.append_cons ht] at hfts ⊢
    rw [hsegs'] at hall
    have hplain : ∀ c ∈ w.content, c.isBlank = false := by
      intro c hc
      have hgap := head_dropWhile cfg.isGap ts c hc
      have hclass : cfg.classify c ≠ .whitespace := fun h => by simp [Config.isGap, h] at hgap
      exact isBlank_of_classify hclass
    have hend (hc : w.content = none) : segments cfg rest = [] := by
      have hnil : ts.dropWhile cfg.isGap = [] := List.head?_eq_none_iff.1 hc
      rw [show rest = [] by simp only [rest, hnil, List.tail_nil], segments]
    have hlength : w'.length cfg = w.length cfg := by
      cases hc : w.content with
      | none => rw [Window.length_of_end hc, Window.length_of_end (w := w') hc]
      | some c =>
        rw [hts w c (by rw [hsegs]; exact List.mem_cons_self) hc]
        exact hfts w' c (by rw [hall]; simp) hc
    have hrest := ih (hts.of_segments [.window w] hsegs) [] (by simp)
      (hfts.of_segments ((f run).map .token ++ [.window w']) (by simpa using hall))
    have hwindow : layout cfg failure unit opened (.window w' :: segments cfg (f rest)) =
        (layout cfg failure unit opened (.window w :: segments cfg rest)).rewritten f [] :=
      layout_window_rewrite hf failure ht hplain hend hlength hrest unit opened
    have hparts := hf.append_of_front (head_layout_window cfg failure (w := w) ht unit opened (segments cfg rest)) run
    rw [hall, layout_tokens, hwindow]
    show _ = (layout cfg failure unit opened (.window w :: segments cfg rest)).rewritten f run
    simp only [Layout.rewritten, Layout.behind, List.nil_append, hparts]
  | case3 t ts hc ih =>
    intro hts run hrun hfts unit opened
    have hts' : Measured cfg ts := hts.of_segments [.token t] (segments_of_not_newline hc ts)
    have hstep : layout cfg failure unit opened (.token t :: segments cfg ts) =
      (layout cfg failure unit opened (segments cfg ts)).behind [t] := rfl
    rw [hstep]
    by_cases ht : t.isBlank = true
    · have hrun' : ∀ u ∈ run ++ [t], u.isBlank = true := by
        intro u hu
        rcases List.mem_append.1 hu with hu | hu
        · exact hrun u hu
        · rwa [List.mem_singleton.1 hu]
      have happend : run ++ [t] ++ ts = run ++ t :: ts := by simp
      have hrest := ih hts' (run ++ [t]) hrun' (by rwa [happend]) unit opened
      rw [happend] at hrest
      rw [hrest]
      simp [Layout.rewritten, Layout.behind]
    · have ht : t.isBlank = false := Bool.eq_false_iff.2 ht
      have hsegs := hrunsegs hrun (t :: f ts)
      rw [segments_of_not_newline hc] at hsegs
      rw [hf.append_cons ht] at hfts ⊢
      have hfts' : Measured cfg (f ts) := hfts.of_segments ((f run).map .token ++ [.token t]) (by simpa using hsegs)
      have hrest := ih hts' [] (by simp) hfts' unit opened
      rw [List.nil_append] at hrest
      rw [hsegs, layout_tokens, layout, hrest]
      simp [Layout.rewritten, Layout.behind, hf.append_cons ht]

end Offside
