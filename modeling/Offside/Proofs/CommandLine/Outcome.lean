import Offside.CommandLine.Run
import Offside.Proofs.Outline.Agreement
import Offside.Proofs.Outline.Starts
/-!
# How a run comes out

A run prints tokens or entries, and for these two it reads the text with different scanners.  But it fails for the text
in both cases where a line does not fit the unit, and nowhere else (`fault_words`, `fault_lines`).  So whether it fails,
and what it says then, can be told from what stands at the path and from the unit (`complaint?`); the options that say
what to print, and how, have no part in it.
-/
namespace Offside

namespace Outline

/-! ## Lines that do not fit -/

namespace Line

/-- The width of a level for some lines: the unit that is set, or else the first number of leading blanks other than
zero, zero where there is none. -/
def width (unit : Nat) (ls : List Line) : Nat :=
  if unit = 0 then ((ls.map leading).find? (0 < ·)).getD 0 else unit

/-- The error of a line whose leading blanks the width does not divide. -/
def misfit (width : Nat) (l : Line) : IndentError :=
  ⟨.int l.leading, .int width, .int l.number, .int (l.leading + 1 : Nat)⟩

/-- The error of the first of some lines that does not fit. -/
def misfit? (unit : Nat) (ls : List Line) : Option IndentError :=
  (ls.find? (fun l => ¬ width unit ls ∣ l.leading)).map (misfit (width unit ls))

theorem width_cons (unit : Nat) (l : Line) (ls : List Line) :
    width unit (l :: ls) = width (fixedBy unit l.leading) ls := by
  unfold width fixedBy
  by_cases hu : unit = 0
  · by_cases hl : l.leading = 0
    · simp [hu, hl]
    · simp [hu, hl, Nat.pos_of_ne_zero hl]
  · simp [hu]

theorem width_of_ne_zero {unit : Nat} (h : unit ≠ 0) (ls : List Line) : width unit ls = unit :=
  if_neg h

/-- Line by line, the width is the unit fixed so far: before it is fixed there are only lines that fit any. -/
theorem misfit?_cons (unit : Nat) (l : Line) (ls : List Line) :
    misfit? unit (l :: ls) =
      if fixedBy unit l.leading ∣ l.leading then misfit? (fixedBy unit l.leading) ls
      else some (l.misfit (fixedBy unit l.leading)) := by
  unfold misfit?
  rw [width_cons]
  by_cases hzero : fixedBy unit l.leading = 0
  · have hl : l.leading = 0 := by
      unfold fixedBy at hzero
      split at hzero <;> omega
    simp [hl]
  · rw [width_of_ne_zero hzero]
    by_cases hd : fixedBy unit l.leading ∣ l.leading
    · simp [hd]
    · simp [hd]

theorem misfit?_eq_none_iff (unit : Nat) (ls : List Line) :
    misfit? unit ls = none ↔ ∀ l ∈ ls, width unit ls ∣ l.leading := by
  simp [misfit?]

end Line

/-- **The markers in front of some lines end where the first of them does not fit.** -/
theorem fault_marks (kinds : Kinds) (starts : List Token) : ∀ {ls : List Line},
    starts.map Token.spot = ls.map Line.spot → ∀ (unit : Nat) (opened : List Token),
      (marks kinds none unit opened (starts.map (fun t => .ofStart (some t)))).fault =
        (Line.misfit? unit ls).map .indent := by
  induction starts with
  | nil =>
    intro ls h unit opened
    obtain rfl := List.map_eq_nil_iff.1 h.symm
    rfl
  | cons t starts ih =>
    intro ls h unit opened
    cases ls with
    | nil => cases h
    | cons l ls =>
      obtain ⟨hspot, hspots⟩ := List.cons.inj h
      obtain ⟨hline, hcolumn⟩ := Prod.mk.inj hspot
      have hlength : (Landing.ofStart (some t)).length = l.leading := by
        simp [Landing.ofStart, Token.columnsBefore, hcolumn]
      have hrefusal (width : Nat) : (Landing.ofStart (some t)).refusal width = l.misfit width := by
        rw [Landing.refusal, hlength, Line.misfit, ← hline, ← hcolumn]
        rfl
      rw [List.map_cons, marks, Line.misfit?_cons, if_pos (.inr rfl), hlength]
      dsimp only
      -- the line fits the unit, which may be fixed by this line, or it is the line of the error
      by_cases hd : fixedBy unit l.leading ∣ l.leading
      · rw [if_pos hd, if_pos (Nat.mod_eq_zero_of_dvd hd)]
        exact ih hspots _ _
      · rw [if_neg hd, if_neg (fun hm => hd (Nat.dvd_of_mod_eq_zero hm)), hrefusal]
        rfl

section
variable {text : String} (hstray : Text.hasStray text.toList = false)
include hstray

/-- A stream over the words of a text fails where a line does not fit, and nowhere else. -/
theorem fault_words (variant : Variant) (policy : Policy) (unit : Nat) :
    (Offside.drainText (wordConfig policy unit) variant text).fault =
      (Line.misfit? unit (laterLines text.toList)).map .indent := by
  obtain ⟨starts, hspots, -, hfault, -⟩ := marks_of_text hstray variant policy unit
  exact hfault.trans (fault_marks wordKinds starts hspots unit [])

/-- So does a stream over its lines. -/
theorem fault_lines (unit : Nat) :
    (drainText unit text).fault = (Line.misfit? unit (laterLines text.toList)).map .indent := by
  obtain ⟨-, hfault, -⟩ := streams_agree text unit .after
  rw [← hfault, fault_words hstray]

end
end Outline

/-! ## What a run complains of -/

namespace CommandLine

open Outline (Found Line laterLines)

/-- What a run has to say against what stands at the path of its file, and against the unit.  A folder it does not
report: it fails there without a report. -/
def complaint? (file : String) (found : Found) (unit : Int) : Option String :=
  match found with
  | .nothing | .notFolder | .tooLong | .badPath => some ("File '" ++ file ++ "' not found")
  | .folder => none
  | .file bytes =>
    match Utf8.read bytes with
    | .error f => some f.message
    | .ok cs =>
      if unit < 0 then some (ConfigError.badUnit (Datum.int unit).shown).message
      else (Line.misfit? unit.toNat (laterLines (Text.unifyBreaks cs))).map IndentError.message

/-- Whether there is anything to be said: there is no such file, it is no text, the unit is negative, or the leading
blanks of a later line are no multiple of the width of a level. -/
def Refused (found : Found) (unit : Int) : Prop :=
  match found with
  | .nothing | .notFolder | .tooLong | .badPath => True
  | .folder => False
  | .file bytes =>
    (∃ f, Utf8.read bytes = .error f) ∨ unit < 0 ∨
      ∃ cs, Utf8.read bytes = .ok cs ∧
        let ls := laterLines (Text.unifyBreaks cs)
        ∃ l ∈ ls, ¬ Line.width unit.toNat ls ∣ l.leading

theorem complaint?_ne_none_iff (file : String) (found : Found) (unit : Int) :
    complaint? file found unit ≠ none ↔ Refused found unit := by
  unfold complaint? Refused
  cases found with
  | nothing | notFolder | tooLong | badPath | folder => simp
  | file bytes =>
    dsimp only
    cases Utf8.read bytes with
    | error f => simp
    | ok cs =>
      dsimp only
      by_cases hu : unit < 0
      · simp [hu]
      · simp only [hu, if_false, ne_eq, Option.map_eq_none_iff, Line.misfit?_eq_none_iff]
        simp

/-- The options that a run needs have a value: the unit, and without the tree the policy and the variant. -/
structure Options.Gives (o : Options) (unit : Int) : Prop where
  unit : o.unit = some unit
  policy : o.tree = false → o.policy ≠ none
  variant : o.tree = false → o.variant ≠ none

/-- A run that has something to say says that and nothing else, and fails. -/
def Report.Tells (r : Report) (complaint : Option String) (otherwise : Prop) : Prop :=
  match complaint with
  | some message => r.exit = 1 ∧ r.stdout = "Error: " ++ message ++ "\n"
  | none => r.exit = 0 ∧ otherwise

theorem Report.Tells.imp {r : Report} {complaint : Option String} {otherwise otherwise' : Prop}
    (h : r.Tells complaint otherwise) (himp : otherwise → otherwise') : r.Tells complaint otherwise' := by
  cases complaint with
  | some message => exact h
  | none => exact ⟨h.1, himp h.2⟩

theorem Report.Tells.exit_eq_one_iff {r : Report} {complaint : Option String} {otherwise : Prop}
    (h : r.Tells complaint otherwise) : r.exit = 1 ↔ complaint ≠ none := by
  cases complaint with
  | some message => simp [h.1]
  | none => simp [h.1]

/-- What a run prints of a text that it has nothing to say against. -/
def Options.Prints (o : Options) (text : String) (unit : Int) (stdout : String) : Prop :=
  (o.tree = false → ∃ v p ts, o.variant = some v ∧ o.policy = some p ∧ tokenize text v p unit.toNat = .ok ts ∧
    stdout = listing ts) ∧
  (o.tree = true → ∃ doc, Outline.ofText text (.int unit) = .ok doc ∧
    stdout = doc.toText "  " ++ if o.verbose then sizeLines doc.entries else "")

section
variable {o : Options} {unit : Int}

theorem notFound_eq (file : String) :
    "Error: " ++ ("File '" ++ file ++ "' not found") ++ "\n" = "Error: File '" ++ file ++ "' not found\n" := by
  have hfront : "Error: File '" = "Error: " ++ "File '" := rfl
  have hback : "' not found\n" = "' not found" ++ "\n" := rfl
  rw [hfront, hback]
  simp only [String.append_assoc]

theorem execute_nothing {found : Found} (hfolder : found ≠ .folder) (hfile : ∀ bytes, found ≠ .file bytes) :
    execute o found = .ok ⟨1, "Error: " ++ ("File '" ++ o.file ++ "' not found") ++ "\n", "", false⟩ := by
  rw [notFound_eq]
  cases found with
  | nothing | notFolder | tooLong | badPath => rfl
  | folder => exact absurd rfl hfolder
  | file bytes => exact absurd rfl (hfile bytes)

theorem unitOfDatum_neg (h : unit < 0) :
    unitOfDatum (.int unit) = .error (.badUnit (Datum.int unit).shown) := by
  cases unit with
  | ofNat n => exact absurd h (Int.not_lt_of_ge (Int.natCast_nonneg n))
  | negSucc n => rfl

theorem unitOfDatum_toNat (h : ¬ unit < 0) : unitOfDatum (.int unit) = .ok unit.toNat := by
  cases unit with
  | ofNat n => rfl
  | negSucc n => exact absurd (Int.negSucc_lt_zero n) h

theorem wordConfigOfData_of_policy {policy : Policy} (h : o.policy = some policy) :
    wordConfigOfData o.policyValue o.unitValue = (unitOfDatum o.unitValue).map (wordConfig policy) := by
  rw [wordConfigOfData, Options.policyValue, h]
  simp only [optionValue, Outline.ofDatum_name]
  cases unitOfDatum o.unitValue <;> rfl

theorem variantOfDatum_of_variant {variant : Variant} (h : o.variant = some variant) :
    Variant.ofDatum o.variantValue = .ok variant := by
  rw [Options.variantValue, h, optionValue, Variant.ofDatum, Variant.ofName?_name]

theorem wordConfigOfData_eq (hgives : o.Gives unit) (htree : o.tree = false) : ∃ policy, o.policy = some policy ∧
    wordConfigOfData o.policyValue o.unitValue = (unitOfDatum (.int unit)).map (wordConfig policy) := by
  obtain ⟨policy, hpolicy⟩ := Option.ne_none_iff_exists'.1 (hgives.policy htree)
  refine ⟨policy, hpolicy, ?_⟩
  rw [wordConfigOfData_of_policy hpolicy, Options.unitValue, hgives.unit]
  rfl

/-- A negative unit is reported for tokens and for entries alike. -/
theorem printText_neg (hgives : o.Gives unit) (h : unit < 0) (text : String) :
    printText o text = .ok (failed o (ConfigError.badUnit (Datum.int unit).shown).message []) := by
  unfold printText
  cases htree : o.tree with
  | true =>
    rw [if_pos rfl, Options.unitValue, hgives.unit, optionValue, unitOfDatum_neg h]
  | false =>
    obtain ⟨policy, -, hconfig⟩ := wordConfigOfData_eq hgives htree
    rw [if_neg Bool.false_ne_true, hconfig, unitOfDatum_neg h]
    rfl

theorem printTokens_of_text (o : Options) {text : String} (hstray : Text.hasStray text.toList = false) (v : Variant)
    (p : Policy) (n : Nat) :
    let r := printTokens o (wordConfig p n) v text
    r.Tells ((Line.misfit? n (laterLines text.toList)).map IndentError.message)
      (∃ ts, tokenize text v p n = .ok ts ∧ r.stdout = listing ts) := by
  have htokens : tokenize text v p n = (drainText (wordConfig p n) v text).toExcept := rfl
  have hfault := Outline.fault_words hstray v p n
  dsimp only [printTokens]
  rw [htokens]
  generalize drainText (wordConfig p n) v text = d at hfault
  cases hm : Line.misfit? n (laterLines text.toList) with
  | some e =>
    have hexcept : d.toExcept = .error (.indent e) := by rw [Drained.toExcept, hfault, hm]; rfl
    rw [hexcept]
    exact ⟨rfl, rfl⟩
  | none =>
    have hexcept : d.toExcept = .ok d.tokens := by rw [Drained.toExcept, hfault, hm]; rfl
    rw [hexcept]
    exact ⟨rfl, d.tokens, rfl, rfl⟩

theorem printEntries_of_text (o : Options) {text : String} (hstray : Text.hasStray text.toList = false) (n : Nat) :
    let r := printEntries o n text
    r.Tells ((Line.misfit? n (laterLines text.toList)).map IndentError.message)
      (∃ entries, Outline.parseText text n = .ok entries ∧
        r.stdout = Outline.render "  " entries ++ if o.verbose then sizeLines entries else "") := by
  have hentries : Outline.parseText text n =
      (Outline.parseDrained (Outline.drainText n text)).map (Forest.map Entry.ofToken) := rfl
  have hfault := Outline.fault_lines hstray n
  obtain ⟨-, -, -, reader, htakes, hend⟩ := Outline.streams_agree text n .after
  obtain ⟨hfails, hreads⟩ := Outline.read_of_takes_any htakes hend
  dsimp only [printEntries]
  rw [hentries]
  generalize hd : Outline.drainText n text = d at hfault
  cases hm : Line.misfit? n (laterLines text.toList) with
  | some e =>
    -- whatever the parser has taken in front of it, the fault of the stream is what it fails with
    have hparse : Outline.parseDrained d = .error (.fault (.indent e)) := by
      rw [Outline.parseDrained, ← hd]
      exact hfails _ (by rw [hd, hfault, hm]; rfl)
    rw [hparse]
    exact ⟨rfl, rfl⟩
  | none =>
    obtain ⟨forest, hforest⟩ := hreads (by rw [hd, hfault, hm]; rfl)
    have hparse : Outline.parseDrained d = .ok forest := by rw [Outline.parseDrained, ← hd, hforest]
    rw [hparse]
    exact ⟨rfl, _, rfl, rfl⟩

/-- Of a text, a run reports the first line that does not fit, or prints what is asked for. -/
theorem printText_of_text (hgives : o.Gives unit) (h : ¬ unit < 0) {text : String}
    (hstray : Text.hasStray text.toList = false) : ∃ r, printText o text = .ok r ∧
      r.Tells ((Line.misfit? unit.toNat (laterLines text.toList)).map IndentError.message)
        (o.Prints text unit r.stdout) := by
  unfold printText
  cases htree : o.tree with
  | true =>
    rw [if_pos rfl, Options.unitValue, hgives.unit, optionValue, unitOfDatum_toNat h]
    refine ⟨_, rfl, (printEntries_of_text o hstray unit.toNat).imp ?_⟩
    rintro ⟨entries, hentries, hstdout⟩
    have hdoc : Outline.ofText text (.int unit) = .ok { text, unit := unit.toNat, entries } := by
      rw [Outline.ofText_eq (unitOfDatum_toNat h), hentries]
      rfl
    exact ⟨fun ht => absurd (htree.symm.trans ht) nofun, fun _ => ⟨_, hdoc, hstdout⟩⟩
  | false =>
    obtain ⟨policy, hpolicy, hconfig⟩ := wordConfigOfData_eq hgives htree
    obtain ⟨variant, hvariant⟩ := Option.ne_none_iff_exists'.1 (hgives.variant htree)
    have hname := variantOfDatum_of_variant hvariant
    rw [if_neg Bool.false_ne_true, hconfig, unitOfDatum_toNat h]
    refine ⟨printTokens o (wordConfig policy unit.toNat) variant text, by rw [hname]; rfl,
      (printTokens_of_text o hstray variant policy unit.toNat).imp ?_⟩
    rintro ⟨ts, hts, hstdout⟩
    exact ⟨fun _ => ⟨variant, policy, ts, hvariant, hpolicy, hts, hstdout⟩,
      fun ht => absurd (htree.symm.trans ht) nofun⟩

theorem execute_file (hgives : o.Gives unit) (bytes : List UInt8) : ∃ r, execute o (.file bytes) = .ok r ∧
    r.Tells (complaint? o.file (.file bytes) unit)
      (∃ text, Outline.textOfBytes bytes = .ok text ∧ o.Prints text unit r.stdout) := by
  cases hread : Utf8.read bytes with
  | error f =>
    have htext : Outline.textOfBytes bytes = .error (.encoding f) := by rw [Outline.textOfBytes, hread]
    have hcomplaint : complaint? o.file (.file bytes) unit = some f.message := by simp only [complaint?, hread]
    rw [hcomplaint]
    exact ⟨failed o f.message [], by simp only [execute, htext]; rfl, rfl, rfl⟩
  | ok cs =>
    let text := String.ofList (Text.unifyBreaks cs)
    have htoList : text.toList = Text.unifyBreaks cs := String.toList_ofList
    have htext : Outline.textOfBytes bytes = .ok text := by rw [Outline.textOfBytes, hread]
    have hexecute : execute o (.file bytes) = printText o text := by simp only [execute, htext]
    rw [hexecute]
    by_cases h : unit < 0
    · have hcomplaint : complaint? o.file (.file bytes) unit =
          some (ConfigError.badUnit (Datum.int unit).shown).message := by
        simp only [complaint?, hread, if_pos h]
      rw [hcomplaint]
      exact ⟨_, printText_neg hgives h text, rfl, rfl⟩
    · have hcomplaint : complaint? o.file (.file bytes) unit =
          (Line.misfit? unit.toNat (laterLines text.toList)).map IndentError.message := by
        simp only [complaint?, hread, if_neg h, htoList]
      have hstray : Text.hasStray text.toList = false := by
        rw [htoList]
        exact Text.hasStray_of_not_mem (Text.not_mem_unifyBreaks cs)
      obtain ⟨r, hr, htold⟩ := printText_of_text hgives h hstray
      rw [hcomplaint]
      exact ⟨r, hr, htold.imp fun hprints => ⟨text, htext, hprints⟩⟩

/-- **How a run comes out**, for a command line that gives what it needs.  A folder in place of the file is a failure of
the run, and the only one.  Otherwise the run fails with the exit code one if there is no such file, if it is no text,
if the unit is negative, or if the leading blanks of a line with content behind the first are no multiple of the width of
a level; it prints one report then, and what that says can be told from the path, what stands there and the unit.  If
there is nothing to be said, it prints the tokens of the text one a line, or its outline. -/
theorem run_outcome {args : List String} (look : String → Found) (hparse : parse args = .ok o) (hgives : o.Gives unit) :
    (∀ f, run args look = .error f ↔ look o.file = .folder ∧ f = .folder o.file) ∧
    (look o.file ≠ .folder → ∃ r, run args look = .ok r ∧ (r.exit = 1 ↔ Refused (look o.file) unit) ∧
      r.Tells (complaint? o.file (look o.file) unit)
        (∃ bytes text, look o.file = .file bytes ∧ Outline.textOfBytes bytes = .ok text ∧
          o.Prints text unit r.stdout)) := by
  have hrun : run args look = execute o (look o.file) := by rw [run, hparse]
  rw [hrun]
  generalize look o.file = found
  have htold : found ≠ .folder → ∃ r, execute o found = .ok r ∧ r.Tells (complaint? o.file found unit)
      (∃ bytes text, found = .file bytes ∧ Outline.textOfBytes bytes = .ok text ∧ o.Prints text unit r.stdout) := by
    intro hfolder
    cases found with
    | folder => exact absurd rfl hfolder
    | nothing | notFolder | tooLong | badPath => exact ⟨_, execute_nothing nofun nofun, rfl, rfl⟩
    | file bytes =>
      obtain ⟨r, hr, h⟩ := execute_file hgives bytes
      exact ⟨r, hr, h.imp fun ⟨text, htext, hprints⟩ => ⟨bytes, text, rfl, htext, hprints⟩⟩
  refine ⟨fun f => ?_, fun hfolder => ?_⟩
  · by_cases hfolder : found = .folder
    · subst hfolder
      simp [execute, eq_comm]
    · obtain ⟨r, hr, -⟩ := htold hfolder
      simp [hr, hfolder]
  · obtain ⟨r, hr, h⟩ := htold hfolder
    exact ⟨r, hr, h.exit_eq_one_iff.trans (complaint?_ne_none_iff o.file found unit), h⟩

end

theorem run_outcome_misfit :
    let bytes : List UInt8 := [0x61, 0x0A, 0x20, 0x20, 0x62, 0x0A, 0x20, 0x20, 0x20, 0x63, 0x0A]
    let o : Options := ⟨"f.txt", some .space, some .after, some 0, false, false⟩
    parse ["f.txt"] = .ok o ∧ o.Gives 0 ∧ Refused (.file bytes) 0 ∧
      ∃ r, run ["f.txt"] (fun _ => .file bytes) = .ok r ∧ r.exit = 1 ∧
        r.stdout = "Error: Invalid indent length 3 at 3:4 (indent unit is 2)\n" := by
  intro bytes o
  have hparse : parse ["f.txt"] = .ok o := by decide +kernel
  have hgives : o.Gives 0 := ⟨rfl, nofun, nofun⟩
  have hcomplaint : complaint? o.file (.file bytes) 0 =
      some "Invalid indent length 3 at 3:4 (indent unit is 2)" := by
    decide +kernel
  obtain ⟨r, hr, hexit, htold⟩ := (run_outcome (fun _ => .file bytes) hparse hgives).2 nofun
  rw [hcomplaint] at htold
  exact ⟨hparse, hgives, hexit.1 htold.1, r, hr, htold⟩

/-- With two dashes for the policy a run without the tree fails where there is nothing to be said. -/
theorem run_without_policy :
    let bytes : List UInt8 := [0x61, 0x0A]
    ∃ o r, parse ["--policy=--", "f.txt"] = .ok o ∧ o.unit = some 0 ∧ ¬ Refused (.file bytes) 0 ∧
      run ["--policy=--", "f.txt"] (fun _ => .file bytes) = .ok r ∧ r.exit = 1 := by
  intro bytes
  let o : Options := ⟨"f.txt", some .space, none, some 0, false, false⟩
  have hparse : parse ["--policy=--", "f.txt"] = .ok o := by decide +kernel
  have hrefused : ¬ Refused (.file bytes) 0 := by
    rw [← complaint?_ne_none_iff o.file]
    decide +kernel
  have hrun : run ["--policy=--", "f.txt"] (fun _ => .file bytes) =
      .ok (failed o "Unknown whitespace policy '[]' (expected one of: before, after, skip)" []) := by
    decide +kernel
  exact ⟨o, _, hparse, rfl, hrefused, hrun, rfl⟩

end CommandLine
end Offside
