import Offside.Datum.Reading
import Offside.Failure
/-!
# Lexers that number their token types

Some lexers give records in place of tokens: the type is a number, columns are counted from zero, and the last
character of the text is named instead of the place behind it.  A table of names turns such records into tokens, and
they end at the first record of the end type, or where the lexer gives nothing.
-/
namespace Offside
namespace NumberedLexer

/-- The type of the record that says that the text has ended. -/
def endType : TokenType := .integer (-1)

/-- The name that stands in a table for a number without one. -/
def noName : TokenType := .name "<INVALID>"

/-- What a numbering lexer gives for a piece of text: the offsets of its first and last characters, and the line and
column of the first, the line counted from one and the column from zero.  Nobody checks any of them. -/
structure Record where
  type : Datum
  text : Datum
  first : Datum
  last : Datum
  line : Datum
  column : Datum
deriving DecidableEq, Repr

/-- Whether a record says that the text has ended. -/
def Record.isEnd (r : Record) : Bool :=
  (TokenType.ofDatum r.type).key == endType.key

/-- The names of token types by their numbers. -/
abbrev Names := List (Int × TokenType)

/-- The table of a list of names, numbered from zero on.  A number whose name stands for nothing has none. -/
def namesOf (names : List TokenType) : Names :=
  (names.zipIdx.filter (fun p => p.1.isSet && p.1 != noName)).map (fun p => ((p.2 : Int), p.1))

/-- The table of the names that an option value lists, which may be nothing. -/
def namesOfDatum (value : Datum) : Except KindError Names :=
  if value.isSet then value.listed.map (fun names => namesOf (names.map TokenType.ofDatum)) else .ok []

/-- The table of names that stand under written numbers.  Of names under one number the last counts. -/
def namesUnder (fields : List (String × Datum)) : Except Failure Names :=
  let entry (field : String × Datum) : Except Failure (Int × TokenType) :=
    match Text.readInteger field.1.toList with
    | .ok number => .ok (number, .ofDatum field.2)
    | .error .notInteger => .error (.notNumber field.1)
    | .error (.tooLong digits) => .error (.tooManyDigits digits)
  (fields.mapM entry).map List.reverse

/-- The name of a token type: its own text, where the table has none. -/
def nameIn (names : Names) (type : TokenType) : TokenType :=
  ((names.find? (fun entry => (TokenType.integer entry.1).key == type.key)).map Prod.snd).getD (.name type.display)

/-- The name of a token type that has to be one that can be looked up. -/
def typeName (names : Names) (type : TokenType) : Except KindError TokenType :=
  type.single.map (nameIn names)

/-- The token of a record.  A text that stands for nothing is empty. -/
def Record.token (names : Names) (r : Record) : Except KindError Token := do
  let text := if r.text.isSet then r.text else .text ""
  let column ← r.column.plus "+" (.int 1)
  let behind ← column.plus "+" (.int (← text.size))
  let stopLine ← r.line.plus "+" (.int (← text.breaks))
  let stopColumn := (← text.sinceBreak).elim behind (fun n => .int n)
  let type ← typeName names (.ofDatum r.type)
  let stopOffset ← r.last.plus "+" (.int 1)
  return {
    type
    value := text.display
    start := ⟨r.first, r.line, column⟩
    stop := ⟨stopOffset, stopLine, stopColumn⟩
    level := none }

/-- The token of a record of a text and of integers. -/
theorem Record.token_of_text (names : Names) (type first last line column : Int) (text : String) :
    Record.token names ⟨.int type, .text text, .int first, .int last, .int line, .int column⟩ = .ok {
      type := nameIn names (.integer type)
      value := text
      start := ⟨.int first, .int line, .int (column + 1)⟩
      stop := ⟨.int (last + 1), .int (line + text.toList.count '\n'),
        .int (if text.toList.contains '\n' then (Text.lastLine text.toList).length + 1
          else column + 1 + text.length)⟩
      level := none } := by
  have ht : (if (Datum.text text).isSet then Datum.text text else .text "") = .text text := by
    by_cases h : text = "" <;> simp [Datum.isSet, h]
  simp only [Record.token, ht, Datum.sinceBreak_text]
  cases text.toList.contains '\n' <;> rfl

/-- The source that a lexer's records make.  A record that makes no token is the last. -/
def source (names : Names) : List (Option Record) → Source
  | [] => []
  | none :: _ => [.done]
  | some r :: rest =>
    if r.isEnd then [.done]
    else match r.token names with
      | .ok t => .token t :: source names rest
      | .error e => [.fault (.kind e)]

/-- A lexer as a source, given the names to use; refused where the lexer is not to be had. -/
def sourceOf (available : Bool) (names : Names) (records : List (Option Record)) : Except Failure Source :=
  if available then .ok (source names records) else .error .noLexer

end NumberedLexer
end Offside
