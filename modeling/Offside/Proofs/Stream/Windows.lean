import Offside.LineScan
import Offside.Proofs.Cuts
import Offside.Proofs.Levels.Depths
/-!
# Windows

A finite list of tokens falls into single tokens and windows.  A window begins with a line break; it takes in all line
breaks and white space behind it, and the first other token behind these, if there is one (`segments`).  Nothing is lost
by cutting (`tokens_segments`).

The window is what a stream scans at a line break (`scanFrom_ofTokens`): its blank lines are its gap up to the last line
break, and the indentation measured is that of its last line (`Window.length`).
-/
namespace Offside

namespace Config

def isWhitespace (cfg : Config) (t : Token) : Bool :=
  cfg.classify t == .whitespace

/-- Whether a token can stand between a line break and the next content. -/
def isGap (cfg : Config) (t : Token) : Bool :=
  cfg.classify t != .other

end Config

/-- A line break, the line breaks and white space behind it, and the token behind these, if there is one. -/
structure Window where
  newline : Token
  gap : List Token
  content : Option Token

namespace Window

def tokens (w : Window) : List Token :=
  w.newline :: w.gap ++ w.content.toList

variable (cfg : Config)

/-- The blank lines: the gap up to its last line break. -/
def blank (w : Window) : List Token :=
  w.gap.rdropWhile cfg.isWhitespace

/-- The white space of the last line. -/
def indent (w : Window) : List Token :=
  w.gap.rtakeWhile cfg.isWhitespace

/-- The line break in front of the last line. -/
def lastBreak (w : Window) : Token :=
  (w.blank cfg).getLast?.getD w.newline

/-- The indentation of the last line: what its line break carries and its white space together, or the columns to the
left of its content where there is neither.  A line without content has none. -/
def length (w : Window) : Nat :=
  match w.content with
  | none => 0
  | some t =>
    if w.indent cfg = [] ∧ (w.lastBreak cfg).carriedIndent = 0 then t.columnsBefore
    else (w.lastBreak cfg).carriedIndent + Token.totalWidth (w.indent cfg)

end Window

/-- A part of a list of tokens. -/
inductive Segment where
  | token (t : Token)
  | window (w : Window)

def Segment.tokens : Segment → List Token
  | .token t => [t]
  | .window w => w.tokens

/-- The parts that a list of tokens falls into. -/
def segments (cfg : Config) : List Token → List Segment
  | [] => []
  | t :: ts =>
    if cfg.classify t = .newline then
      .window ⟨t, ts.takeWhile cfg.isGap, (ts.dropWhile cfg.isGap).head?⟩ :: segments cfg (ts.dropWhile cfg.isGap).tail
    else .token t :: segments cfg ts
termination_by ts => ts.length
decreasing_by
  · have := (List.dropWhile_sublist cfg.isGap (l := ts)).length_le
    simp only [List.length_tail, List.length_cons]
    omega
  · simp

theorem segments_of_newline {cfg : Config} {t : Token} (hc : cfg.classify t = .newline) (ts : List Token) :
    segments cfg (t :: ts) =
      .window ⟨t, ts.takeWhile cfg.isGap, (ts.dropWhile cfg.isGap).head?⟩ ::
        segments cfg (ts.dropWhile cfg.isGap).tail := by
  rw [segments, if_pos hc]

theorem segments_of_not_newline {cfg : Config} {t : Token} (hc : cfg.classify t ≠ .newline) (ts : List Token) :
    segments cfg (t :: ts) = .token t :: segments cfg ts := by
  rw [segments, if_neg hc]

theorem Window.tokens_append_rest (cfg : Config) (t : Token) (ts : List Token) :
    (Window.mk t (ts.takeWhile cfg.isGap) (ts.dropWhile cfg.isGap).head?).tokens ++ (ts.dropWhile cfg.isGap).tail =
      t :: ts := by
  conv_rhs => rw [← List.takeWhile_append_dropWhile (p := cfg.isGap) (l := ts)]
  cases ts.dropWhile cfg.isGap <;> simp [Window.tokens]

/-- **Cutting a list of tokens loses none and changes no order.** -/
theorem tokens_segments (cfg : Config) (ts : List Token) : (segments cfg ts).flatMap Segment.tokens = ts := by
  fun_induction segments cfg ts with
  | case1 => rfl
  | case2 t ts hc ih =>
    rw [List.flatMap_cons, ih]
    exact Window.tokens_append_rest cfg t ts
  | case3 t ts hc ih => rw [List.flatMap_cons, ih]; rfl

/-! ## Scanning a window -/

section
variable {cfg : Config}

theorem isWhitespace_of_newline {t : Token} (hc : cfg.classify t = .newline) : cfg.isWhitespace t = false := by
  simp [Config.isWhitespace, hc]

theorem Window.cons_blank (newline : Token) (whitespace : List Token) {t : Token} (hc : cfg.classify t = .newline)
    (gap : List Token) (content : Option Token) :
    let w : Window := ⟨newline, whitespace ++ t :: gap, content⟩
    let w' : Window := ⟨t, gap, content⟩
    w.blank cfg = whitespace ++ t :: w'.blank cfg ∧ w.indent cfg = w'.indent cfg ∧
      w.lastBreak cfg = w'.lastBreak cfg := by
  have hb : (Window.mk newline (whitespace ++ t :: gap) content).blank cfg =
      whitespace ++ t :: (Window.mk t gap content).blank cfg :=
    rdropWhile_append_cons (isWhitespace_of_newline hc) whitespace gap
  have hi : (Window.mk newline (whitespace ++ t :: gap) content).indent cfg = (Window.mk t gap content).indent cfg :=
    rtakeWhile_append_cons (isWhitespace_of_newline hc) whitespace gap
  have hl : (Window.mk newline (whitespace ++ t :: gap) content).lastBreak cfg =
      (Window.mk t gap content).lastBreak cfg := by
    rw [lastBreak, hb, lastBreak, List.getLast?_append, List.getLast?_cons]
    rfl
  exact ⟨hb, hi, hl⟩

theorem Window.of_whitespace (newline : Token) {whitespace : List Token}
    (hw : ∀ t ∈ whitespace, cfg.classify t = .whitespace) (content : Option Token) :
    let w : Window := ⟨newline, whitespace, content⟩
    w.blank cfg = [] ∧ w.indent cfg = whitespace ∧ w.lastBreak cfg = newline := by
  have hall : ∀ t ∈ whitespace, cfg.isWhitespace t := fun t ht => by simp [Config.isWhitespace, hw t ht]
  have hb : (Window.mk newline whitespace content).blank cfg = [] := List.rdropWhile_eq_nil_iff.2 hall
  exact ⟨hb, List.rtakeWhile_eq_self_iff.2 hall, by rw [lastBreak, hb]; rfl⟩

/-- The blank lines of a scan and its line breaks are those of a window. -/
def BlankOf (cfg : Config) (lines : List (List Token × Token)) (blank : List Token) : Prop :=
  lines.flatMap (fun line => line.1 ++ [line.2]) = blank ∧
    lines.flatMap (fun line => [line.2]) = blank.filter (fun t => !cfg.isWhitespace t)

/-- A result behind some more blank lines. -/
def ScanResult.behindLines (lines : List (List Token × Token)) : ScanResult → ScanResult
  | .found scan ended rest => .found { scan with blankLines := lines ++ scan.blankLines } ended rest
  | .broken f rest => .broken f rest

theorem ScanResult.behindBlank_behindLines (whitespace : List Token) (newline : Token)
    (lines : List (List Token × Token)) (r : ScanResult) :
    (r.behindLines lines).behindBlank whitespace newline = r.behindLines ((whitespace, newline) :: lines) := by
  cases r <;> rfl

/-- **A scan takes a gap in as the blank lines and the last line of its window**, and goes on with the latter.  The
induction is on the gap, where a line break turns the white space read so far into one more blank line. -/
theorem scanFrom_gap (cfg : Config) (more : Source) (gap : List Token) : (∀ t ∈ gap, cfg.isGap t = true) →
    ∀ (newline : Token) (whitespace : List Token), (∀ t ∈ whitespace, cfg.classify t = .whitespace) →
    let w : Window := ⟨newline, whitespace ++ gap, none⟩
    ∃ lines, BlankOf cfg lines (w.blank cfg) ∧
      scanFrom cfg newline whitespace (Source.ofTokens gap ++ more) =
        (scanFrom cfg (w.lastBreak cfg) (w.indent cfg) more).behindLines lines := by
  induction gap with
  | nil =>
    intro _ newline whitespace hw
    obtain ⟨hb, hi, hl⟩ := Window.of_whitespace newline hw none
    rw [List.append_nil]
    dsimp only
    refine ⟨[], by rw [hb]; exact ⟨rfl, rfl⟩, ?_⟩
    rw [hl, hi]
    cases h : scanFrom cfg newline whitespace more <;> simp [Source.ofTokens, h, ScanResult.behindLines]
  | cons t gap ih =>
    intro hgap newline whitespace hw
    have hrest : ∀ u ∈ gap, cfg.isGap u = true := fun u hu => hgap u (List.mem_cons_of_mem _ hu)
    show ∃ lines, _ ∧ scanFrom cfg newline whitespace (.token t :: (Source.ofTokens gap ++ more)) = _
    cases hc : cfg.classify t with
    | other =>
      have := hgap t List.mem_cons_self
      simp [Config.isGap, hc] at this
    | whitespace =>
      have hw' : ∀ u ∈ whitespace ++ [t], cfg.classify u = .whitespace := by
        intro u hu
        rcases List.mem_append.1 hu with hu | hu
        · exact hw u hu
        · rw [List.mem_singleton.1 hu, hc]
      have := ih hrest newline (whitespace ++ [t]) hw'
      rw [List.append_assoc, List.singleton_append] at this
      rwa [scanFrom_whitespace newline whitespace _ hc]
    | newline =>
      obtain ⟨lines, ⟨hall, hbreaks⟩, heq⟩ := ih hrest t [] (by simp)
      obtain ⟨hb, hi, hl⟩ := Window.cons_blank newline whitespace hc gap none
      refine ⟨(whitespace, t) :: lines, ?_, ?_⟩
      · have hnone : whitespace.filter (fun u => !cfg.isWhitespace u) = [] :=
          List.filter_eq_nil_iff.2 fun u hu => by simp [Config.isWhitespace, hw u hu]
        rw [hb]
        refine ⟨?_, ?_⟩
        · simp [hall]
        · simp [hbreaks, hnone, isWhitespace_of_newline hc]
      · rw [scanFrom_newline newline whitespace _ hc, heq, ScanResult.behindBlank_behindLines, hi, hl]
        rfl

theorem Window.measure_eq (newline : Token) (gap : List Token) {t : Token} (ht : t.IsScanned) :
    let w : Window := ⟨newline, gap, some t⟩
    LineScan.measure (w.lastBreak cfg) (w.indent cfg) t = .ok (.int (w.length cfg)) := by
  intro w
  have hlength : w.length cfg = if w.indent cfg = [] ∧ (w.lastBreak cfg).carriedIndent = 0 then t.columnsBefore
      else (w.lastBreak cfg).carriedIndent + Token.totalWidth (w.indent cfg) := rfl
  rw [LineScan.measure, hlength]
  by_cases h : w.indent cfg = [] ∧ (w.lastBreak cfg).carriedIndent = 0
  · rw [if_pos (by simpa using h), if_pos h, ht.columnIndent_eq]
  · rw [if_neg (by simpa using h), if_neg h]

end
end Offside
