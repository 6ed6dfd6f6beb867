import Offside.Source
/-!
# Scanning to the next line with content

Behind a line break a stream looks ahead to the first token that is neither a line break nor white space.  The lines in
between are blank, and each is kept with its white space and its line break.  The indentation of the line found is
measured in one of two ways: by the blanks that stand before its first token, those its line break carries and those in
white space tokens of its own, or, where there are none of either, by that token's column.  A line that the source ends
before is not indented.  A token of which it cannot be told what it is interrupts the scan, and so does a column that is
no number.
-/
namespace Offside

/-- What lies behind a line break: the indentation measured, the blank lines, and the last line's white space and first
other token. -/
structure LineScan (α : Type) where
  length : Datum
  blankLines : List (List α × α)
  whitespace : List α
  content : Option α
deriving DecidableEq, Repr

namespace LineScan

/-- The indentation of a line that begins behind `newline` with some white space and then `content`. -/
def measure (newline : Token) (whitespace : List Token) (content : Token) : Except KindError Datum :=
  if whitespace.isEmpty && newline.carriedIndent == 0 then content.columnIndent
  else .ok (.int (newline.carriedIndent + Token.totalWidth whitespace : Nat))

variable {α : Type}

/-- The same scan behind one more blank line. -/
def behindBlank (whitespace : List α) (newline : α) (scan : LineScan α) : LineScan α :=
  { scan with blankLines := (whitespace, newline) :: scan.blankLines }

/-- Whether the source ended before a line with content. -/
def atEnd (scan : LineScan α) : Bool :=
  scan.content.isNone

end LineScan

/-- How a scan comes out: with what it found, and whether the source said that it is at its end, or with the fault that
interrupted it. -/
inductive ScanResult where
  | found (scan : LineScan Token) (ended : Bool) (rest : Source)
  | broken (f : Fault) (rest : Source)
deriving DecidableEq, Repr

/-- The same result behind one more blank line. -/
def ScanResult.behindBlank (whitespace : List Token) (newline : Token) : ScanResult → ScanResult
  | .found scan ended rest => .found (scan.behindBlank whitespace newline) ended rest
  | .broken f rest => .broken f rest

/-- The replies that a scan leaves. -/
def ScanResult.rest : ScanResult → Source
  | .found _ _ rest => rest
  | .broken _ rest => rest

/-- Scans on in a line that begins behind `newline` and of which some white space is read. -/
def scanFrom (cfg : Config) (newline : Token) (whitespace : List Token) : Source → ScanResult
  | [] => .found ⟨.int 0, [], whitespace, none⟩ true []
  | .done :: rest => .found ⟨.int 0, [], whitespace, none⟩ true rest
  | .gap :: rest => .found ⟨.int 0, [], whitespace, none⟩ false rest
  | .fault f :: rest => .broken f rest
  | .token t :: rest =>
    match cfg.classOf t with
    | .error e => .broken (.kind e) rest
    | .ok .newline => (scanFrom cfg t [] rest).behindBlank whitespace t
    | .ok .whitespace => scanFrom cfg newline (whitespace ++ [t]) rest
    | .ok .other =>
      match LineScan.measure newline whitespace t with
      | .ok length => .found ⟨length, [], whitespace, some t⟩ false rest
      | .error e => .broken (.kind e) rest

/-- Scans from a line break to the next token that is neither a line break nor white space. -/
def scanLine (cfg : Config) (newline : Token) (source : Source) : ScanResult :=
  scanFrom cfg newline [] source

section
variable {cfg : Config} {t : Token} (newline : Token) (whitespace : List Token) (rest : Source)

theorem scanFrom_newline (h : cfg.classify t = .newline) :
    scanFrom cfg newline whitespace (.token t :: rest) = (scanFrom cfg t [] rest).behindBlank whitespace t := by
  rw [scanFrom, Config.classOf_of_gap h (by intro h; cases h)]

theorem scanFrom_whitespace (h : cfg.classify t = .whitespace) :
    scanFrom cfg newline whitespace (.token t :: rest) = scanFrom cfg newline (whitespace ++ [t]) rest := by
  rw [scanFrom, Config.classOf_of_gap h (by intro h; cases h)]

/-- The first other token ends the scan: with its line measured, -/
theorem scanFrom_content (h : cfg.classOf t = .ok .other) {length : Datum}
    (hm : LineScan.measure newline whitespace t = .ok length) :
    scanFrom cfg newline whitespace (.token t :: rest) = .found ⟨length, [], whitespace, some t⟩ false rest := by
  simp only [scanFrom, h, hm]

/-- or with a fault where it cannot be measured, -/
theorem scanFrom_unmeasured (h : cfg.classOf t = .ok .other) {e : KindError}
    (hm : LineScan.measure newline whitespace t = .error e) :
    scanFrom cfg newline whitespace (.token t :: rest) = .broken (.kind e) rest := by
  simp only [scanFrom, h, hm]

/-- or where it cannot be told what the token is. -/
theorem scanFrom_unknown {e : KindError} (h : cfg.classOf t = .error e) :
    scanFrom cfg newline whitespace (.token t :: rest) = .broken (.kind e) rest := by
  rw [scanFrom, h]

end

/-- A scan looks at its configuration for what each token is, and for nothing else. -/
theorem scanFrom_congr {cfg cfg' : Config} (h : ∀ t, cfg'.classOf t = cfg.classOf t) (newline : Token)
    (whitespace : List Token) (source : Source) :
    scanFrom cfg' newline whitespace source = scanFrom cfg newline whitespace source := by
  induction source generalizing newline whitespace with
  | nil => rfl
  | cons r source ih =>
    cases r with
    | token t => simp only [scanFrom, h, ih]
    | done | gap | fault f => rfl

theorem ScanResult.rest_behindBlank (whitespace : List Token) (newline : Token) (r : ScanResult) :
    (r.behindBlank whitespace newline).rest = r.rest := by
  cases r <;> rfl

/-- A scan leaves a part of the source. -/
theorem rest_scanFrom_suffix (cfg : Config) (newline : Token) (whitespace : List Token) (source : Source) :
    (scanFrom cfg newline whitespace source).rest <:+ source := by
  fun_induction scanFrom cfg newline whitespace source with
  | case1 => exact List.suffix_refl _
  | case2 => exact List.suffix_cons _ _
  | case3 => exact List.suffix_cons _ _
  | case4 => exact List.suffix_cons _ _
  | case5 => exact List.suffix_cons _ _
  | case6 newline whitespace t rest hc ih =>
    rw [ScanResult.rest_behindBlank]
    exact ih.trans (List.suffix_cons _ _)
  | case7 newline whitespace t rest hc ih => exact ih.trans (List.suffix_cons _ _)
  | case8 => exact List.suffix_cons _ _
  | case9 => exact List.suffix_cons _ _

theorem rest_scanLine_suffix (cfg : Config) (newline : Token) (source : Source) :
    (scanLine cfg newline source).rest <:+ source :=
  rest_scanFrom_suffix cfg newline [] source

end Offside
