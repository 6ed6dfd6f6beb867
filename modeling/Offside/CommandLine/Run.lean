import Offside.CommandLine.Arguments
import Offside.Outline.Document
/-!
# What the program prints

Given what stands at the path of the input file, a run prints the file's tokens, one a line, or its entries, or one
line that reports a failure.  A folder in place of a file, and two dashes in place of a variant, are failures that it
does not report itself.
-/
namespace Offside
namespace CommandLine

/-- What a run leaves behind: its exit code, what it printed, and whether a trace of the failure follows on the error
output. -/
structure Report where
  exit : Nat
  stdout : String
  stderr : String
  trace : Bool
deriving DecidableEq, Repr

/-- The line of one token: its place, its type, and its text between quotes. -/
def tokenLine (t : Token) : String :=
  t.start.line.display ++ ":" ++ t.start.column.display ++ "\t" ++ t.type.display ++ "\t" ++
    Text.quote t.value ++ "\n"

def listing (ts : List Token) : String :=
  String.join (ts.map tokenLine)

/-- What the error output says of a stream: every note with its weight and its origin, or, where that is not asked for,
the failures alone. -/
def logText (verbose : Bool) (notes : List Note) : String :=
  if verbose then
    String.join (notes.map (fun n =>
      (if n.isError then "ERROR" else "DEBUG") ++ " dentlark.transformer: " ++ n.message ++ "\n"))
  else String.join ((notes.filter Note.isError).map (fun n => n.message ++ "\n"))

def failed (o : Options) (message : String) (notes : List Note) : Report :=
  ⟨1, "Error: " ++ message ++ "\n", logText o.verbose notes, o.verbose⟩

/-- A value of the command line as an option value; an empty row, where two dashes stand in its place. -/
def optionValue {α : Type} (toDatum : α → Datum) : Option α → Datum
  | some x => toDatum x
  | none => .list []

def Options.unitValue (o : Options) : Datum :=
  optionValue .int o.unit

def Options.policyValue (o : Options) : Datum :=
  optionValue (fun p => .text p.name) o.policy

def Options.variantValue (o : Options) : Datum :=
  optionValue (fun v => .text v.name) o.variant

def printTokens (o : Options) (cfg : Config) (variant : Variant) (text : String) : Report :=
  let d := drainText cfg variant text
  match d.toExcept with
  | .ok ts => ⟨0, listing ts, logText o.verbose d.notes, false⟩
  | .error f => failed o f.message d.notes

def sizeLines (entries : Forest Entry) : String :=
  "Entries: " ++ toString (entries.walk 0).length ++ "\nDepth: " ++ toString entries.depth ++ "\n"

def printEntries (o : Options) (unit : Nat) (text : String) : Report :=
  let d := Outline.drainText unit text
  match Outline.parseDrained d with
  | .ok lines =>
    let entries := lines.map Entry.ofToken
    ⟨0, Outline.render "  " entries ++ if o.verbose then sizeLines entries else "", logText o.verbose d.notes, false⟩
  | .error f => failed o f.message d.notes

/-- Prints what is asked for of a text.  Entries need the unit alone; tokens need the policy, the unit and the
variant, and the want of a variant is not reported. -/
def printText (o : Options) (text : String) : Except Failure Report :=
  if o.tree then
    match unitOfDatum o.unitValue with
    | .error e => .ok (failed o e.message [])
    | .ok unit => .ok (printEntries o unit text)
  else
    match wordConfigOfData o.policyValue o.unitValue with
    | .error e => .ok (failed o e.message [])
    | .ok cfg => (Variant.ofDatum o.variantValue).map (fun variant => printTokens o cfg variant text)

/-- A run with known options, given what stands at the path of the input file. -/
def execute (o : Options) (found : Outline.Found) : Except Failure Report :=
  match found with
  | .nothing | .notFolder | .tooLong | .badPath => .ok ⟨1, "Error: File '" ++ o.file ++ "' not found\n", "", false⟩
  | .folder => .error (.folder o.file)
  | .file bytes =>
    match Outline.textOfBytes bytes with
    | .error f => .ok (failed o f.message [])
    | .ok text => printText o text

def Refusal.report : Refusal → Report
  | .help => ⟨0, helpText, "", false⟩
  | .usage problem => ⟨2, "", usageText ++ "dentlark: error: " ++ problem ++ "\n", false⟩

/-- A run, given what stands at every path. -/
def run (args : List String) (look : String → Outline.Found) : Except Failure Report :=
  match parse args with
  | .error r => .ok r.report
  | .ok o => execute o (look o.file)

end CommandLine
end Offside
