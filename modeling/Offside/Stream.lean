import Offside.Levels
import Offside.LineScan
/-!
# Streams with markers

A stream passes the tokens of a source on and puts markers between them.  At a line break it scans ahead to the next
line with content, turns that line's indentation into markers, and holds the tokens of the scan and the markers back
until they are asked for one by one.  At the end of the source it closes the levels still open.

A request (`Stream.next`) is a function of the stream and of the source's replies to come, and gives back what is left
of both.
-/
namespace Offside

/-- What a stream tells an observer beside its tokens. -/
inductive Note where
  | unitFixed (unit line : Datum)
  | markers (count : Nat) (type : TokenType) (content : Option Token)
  | stopped (e : IndentError)
deriving DecidableEq, Repr

def Note.isError : Note → Bool
  | .stopped _ => true
  | _ => false

def Note.message : Note → String
  | .unitFixed unit line => "Indent unit set to " ++ unit.display ++ " at line " ++ line.display
  | .markers count type content =>
    toString count ++ " " ++ type.display ++ " token(s) at line " ++
      (match content with
       | none => "EOF"
       | some t => t.start.line.display)
  | .stopped e => "Indentation error, stopping token stream: " ++ e.message

/-- A stream over a source: how it is set up, the levels open, the tokens held back, whether its source has ended, and
the indentation error that stopped it. -/
structure Stream where
  policy : Policy
  whitespace : List TokenType
  unit : Nat
  config : Option Config
  levels : Levels
  buffer : List Token
  exhausted : Bool
  stopped : Option IndentError
deriving DecidableEq

/-- What a request to a stream gives: its reply, the stream after it, what the source has left, and notes. -/
structure Step where
  reply : Reply
  stream : Stream
  rest : Source
  notes : List Note

/-- The tokens of a scan and its markers in the order in which they come out. -/
def arrange {α : Type} (policy : Policy) (newline : α) (scan : LineScan α) (markers : List α) : List α :=
  let blank (line : List α × α) : List α :=
    match policy with
    | .skip => [line.2]
    | _ => line.1 ++ [line.2]
  let front :=
    match policy with
    | .before => scan.whitespace ++ markers
    | .after => markers ++ scan.whitespace
    | .skip => markers
  newline :: scan.blankLines.flatMap blank ++ front ++ scan.content.toList

namespace Stream

/-- A stream that has yet to learn its token types. -/
def unconfigured (policy : Policy) (whitespace : List TokenType) (unit : Nat) : Stream :=
  { policy
    whitespace
    unit
    config := none
    levels := .start (.int unit)
    buffer := []
    exhausted := false
    stopped := none }

def ofConfig (cfg : Config) : Stream :=
  { unconfigured cfg.policy cfg.whitespace cfg.unit with config := some cfg }

/-- An unconfigured stream from option values: the policy is looked at first, then the white space types, then the
unit. -/
def ofData (policy whitespace unit : Datum) : Except ConfigError Stream := do
  let policy ← Policy.ofDatum policy
  let whitespace ← (typesOfDatum whitespace).mapError .kind
  let unit ← unitOfDatum unit
  return unconfigured policy whitespace unit

/-- Tells a stream its token types, once. -/
def configure (s : Stream) (indent dedent newline : Datum) : Except ConfigError Stream :=
  match s.config with
  | some _ => .error .alreadyConfigured
  | none => do
    let kinds ← Kinds.ofData indent dedent newline
    return { s with config := some ⟨kinds, s.whitespace, s.policy, s.unit⟩ }

/-- Gives the first token held back, or says that there is none. -/
def emit (s : Stream) (rest : Source) (notes : List Note) : Step :=
  match s.buffer with
  | [] => ⟨.done, s, rest, notes⟩
  | t :: buffer => ⟨.token t, { s with buffer }, rest, notes⟩

/-- The source has no token: the open levels are closed. -/
def close (s : Stream) (rest : Source) : Step :=
  { s with buffer := s.levels.closeAll.1, levels := s.levels.closeAll.2 }.emit rest []

/-- What an observer hears of a scan, given the levels before it and what came of it. -/
def scanNotes (before : Levels) (scan : LineScan Token) : Except Fault (List Token) → List Note
  | .error (.indent e) => [.stopped e]
  | .error _ => []
  | .ok markers =>
    let fixed : List Note :=
      match scan.content with
      | some t => if before.unit.isZero && !scan.length.isZero then [.unitFixed scan.length t.start.line] else []
      | none => []
    match markers with
    | [] => fixed
    | m :: _ => fixed ++ [.markers markers.length m.type scan.content]

/-- What a scan behind a line break comes to: the markers its line calls for, in the buffer with the tokens of the scan,
or the error that stops the stream. -/
def settle (s : Stream) (cfg : Config) (newline : Token) (scan : LineScan Token) (rest : Source) : Step :=
  let outcome := s.levels.reconcile cfg.kinds scan.length scan.content
  let s' := { s with levels := outcome.2 }
  let notes := scanNotes s.levels scan outcome.1
  match outcome.1 with
  | .error (.indent e) => ⟨.fault (.indent e), { s' with stopped := some e }, rest, notes⟩
  | .error f => ⟨.fault f, s', rest, notes⟩
  | .ok markers => { s' with buffer := arrange s.policy newline scan markers }.emit rest notes

/-- A request with nothing held back: the source is asked, unless it has ended. -/
def pull (s : Stream) (cfg : Config) (source : Source) : Step :=
  if s.exhausted then s.close source
  else match source with
    | [] => { s with exhausted := true }.close []
    | .done :: rest => { s with exhausted := true }.close rest
    | .gap :: rest => s.close rest
    | .fault f :: rest => ⟨.fault f, s, rest, []⟩
    | .token t :: rest =>
      match cfg.classOf t with
      | .error e => ⟨.fault (.kind e), s, rest, []⟩
      | .ok .newline =>
        match scanLine cfg t rest with
        | .broken f rest => ⟨.fault f, s, rest, []⟩
        | .found scan ended rest => { s with exhausted := ended }.settle cfg t scan rest
      | .ok _ => ⟨.token t, s, rest, []⟩

/-- A request: the next token, or word that there is none now, or a fault. -/
def next (s : Stream) (source : Source) : Step :=
  match s.config with
  | none => ⟨.fault (.config .notConfigured), s, source, []⟩
  | some cfg =>
    match s.stopped with
    | some e => ⟨.fault (.indent e), s, source, []⟩
    | none =>
      match s.buffer with
      | t :: buffer => ⟨.token t, { s with buffer }, source, []⟩
      | [] => s.pull cfg source

end Stream
end Offside
