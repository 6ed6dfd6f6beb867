import Offside.Outline.Grammar
import Offside.Tokenize
import Offside.Text.LineBreak
/-!
# Outline documents

An outline is a text whose lines stand below one another by their indentation.  Each line with content is an entry, of
its text without the white space at its end and of its line number; the lines indented more deeply below it are its
children.
-/
namespace Offside

/-- One line of an outline. -/
structure Entry where
  text : String
  line : Datum
deriving DecidableEq, Repr

/-- The entry of a line token. -/
def Entry.ofToken (t : Token) : Entry :=
  ⟨String.ofList (Text.stripRight t.value.toList), t.start.line⟩

namespace Outline

/-- The scanner for lines: a word goes on to the end of its line, and blanks around words are dropped. -/
def scanner : Scanner :=
  { wordType := .name "LINE"
    blankType := .name "WS"
    newlineType := .name "_NL"
    inWord := Scanner.isLineChar
    joinBlanks := true
    keepBlanks := false
    single := by decide }

/-- The token types that the streams over the line scanner have. -/
def kinds : Kinds :=
  { indent := .name "_INDENT"
    dedent := .name "_DEDENT"
    newline := .name "_NL"
    isSet := by decide
    distinct := by decide }

/-- The configuration of a stream over the line scanner. -/
def config (unit : Nat) : Config :=
  { kinds, whitespace := [], policy := .after, unit }

/-- All that a stream over a text's lines gives. -/
def drainText (unit : Nat) (text : String) : Drained :=
  (Stream.ofConfig (config unit)).drain (scanner.scan text)

/-- The outline of some tokens and what comes behind them: their end, or a fault.  A token that may not stand where it
does is met before the fault, and the fault before a missing end. -/
def read (tokens : List Token) (fault : Option Fault) : Except Failure (Forest Token) :=
  match Reader.start.feed 0 tokens, fault with
  | .error index, none => .error (.unexpected index)
  | .error index, some f => .error (if index < tokens.length then .unexpected index else .fault f)
  | .ok _, some f => .error (.fault f)
  | .ok r, none =>
    match r.finish? with
    | some forest => .ok forest
    | none => .error (.unexpected tokens.length)

/-- The outline of what a stream gives. -/
def parseDrained (d : Drained) : Except Failure (Forest Token) :=
  read d.tokens d.fault

/-- The outline of tokens of any types.  The type of each is looked up among the symbols of the grammar, and one that
cannot be is a fault in the token's place. -/
def parseTokens (tokens : List Token) : Except Failure (Forest Token) :=
  let isSingle (t : Token) : Bool := t.type.isSingle
  match tokens.dropWhile isSingle with
  | [] => read tokens none
  | t :: _ => read (tokens.takeWhile isSingle) (some (.kind (.notSingle t.type.toDatum.kind)))

def parseLines (text : String) (unit : Nat) : Except Failure (Forest Token) :=
  parseDrained (drainText unit text)

def parseText (text : String) (unit : Nat) : Except Failure (Forest Entry) :=
  (parseLines text unit).map (Forest.map Entry.ofToken)

/-- The indent unit of an option value. -/
def unitOf (unit : Datum) : Except Failure Nat :=
  (unitOfDatum unit).mapError (fun e => .fault (.config e))

/-- The text of some entries with their indentation: a piece of text for every level, one entry a line. -/
def render (indent : String) (entries : Forest Entry) : String :=
  String.join ((entries.walk 0).map (fun e => String.join (List.replicate e.1.toNat indent) ++ e.2.text ++ "\n"))

/-- The indentation that an option value makes at a depth: its text as many times over as the entry is deep. -/
def indentOf (indent : Datum) (depth : Int) : Except Failure String :=
  (indent.times (.int depth) >>= Datum.written).mapError .kind

/-- The text of some entries, where an option value says what indents them. -/
def renderOf (indent : Datum) (entries : Forest Entry) : Except Failure String :=
  match indent with
  | .text s => .ok (render s entries)
  | _ => do
    let lines ← (entries.walk 0).mapM (fun e => do return (← indentOf indent e.1) ++ e.2.text ++ "\n")
    return String.join lines

/-- The depth one level below a depth that an option value gives. -/
def depthBelow (depth : Datum) : Except Failure Datum :=
  (depth.plus "+" (.int 1)).mapError .kind

/-- What stands at a path, or why none can. -/
inductive Found where
  | nothing
  | folder
  | notFolder
  /-- The path, or a name in it, is too long. -/
  | tooLong
  /-- The path holds a null character. -/
  | badPath
  | file (bytes : List UInt8)
deriving DecidableEq, Repr

def textOfBytes (bytes : List UInt8) : Except Failure String :=
  match Utf8.read bytes with
  | .ok cs => .ok (String.ofList (Text.unifyBreaks cs))
  | .error f => .error (.encoding f)

def textOfFound (path : String) : Found → Except Failure String
  | .nothing => .error (.missing path)
  | .folder => .error (.folder path)
  | .notFolder => .error (.notFolder path)
  | .tooLong => .error (.tooLong path)
  | .badPath => .error .badPath
  | .file bytes => textOfBytes bytes

/-- The path that an option value gives.  A number stands for a file that is open, and there is none. -/
def pathOfDatum (value : Datum) : Except Failure String :=
  match value with
  | .text path => .ok path
  | .int n => .error (if -0x80000000 ≤ n ∧ n < 0x80000000 then .notOpen n else .notPath value.kind)
  | .bool b => .error (.notOpen (if b then 1 else 0))
  | _ => .error (.notPath value.kind)

end Outline

/-- An outline document: its text, the indent unit asked for, and its entries. -/
structure Outline where
  text : String
  unit : Nat
  entries : Forest Entry

namespace Outline

def ofText (text : String) (unit : Datum) : Except Failure Outline := do
  let unit ← unitOf unit
  let entries ← parseText text unit
  return { text, unit, entries }

/-- The document of a text, or of the file at a path where no text is given. -/
def make (path : Datum) (text : Option String) (unit : Datum) (look : String → Found) : Except Failure Outline :=
  match text, path with
  | some text, _ => ofText text unit
  | none, .null => .error .noText
  | none, path => do
    let path ← pathOfDatum path
    let text ← textOfFound path (look path)
    ofText text unit

def tokens (o : Outline) : Except Fault (List Token) :=
  tokenize o.text .ignore .after o.unit

def walk (o : Outline) : List (Int × Entry) :=
  o.entries.walk 0

def depth (o : Outline) : Int :=
  o.entries.depth

def toText (o : Outline) (indent : String) : String :=
  render indent o.entries

/-- The text of the document, where an option value says what indents an entry. -/
def toTextOf (o : Outline) (indent : Datum) : Except Failure String :=
  renderOf indent o.entries

end Outline
end Offside
