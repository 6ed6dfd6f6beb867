import Offside.Fault
import Offside.Scanner
import Offside.Text.Utf8
/-!
# What reading a document can fail with

Beside the faults of its token stream, a document can be asked for in an unknown way, be missing, be no text, or have
tokens in an order that no outline has; and its entries can be asked for in a form that they cannot take.
-/
namespace Offside

/-- What reading a document can fail with. -/
inductive Failure where
  | fault (f : Fault)
  | unknownVariant (name : String)
  /-- A token stands where no outline has it; the number of tokens, where only the end comes too soon. -/
  | unexpected (index : Nat)
  | noText
  | missing (path : String)
  | folder (path : String)
  | notFolder (path : String)
  | tooLong (path : String)
  /-- A path holds a null character. -/
  | badPath
  /-- A value that is no text was given for a path. -/
  | notPath (kind : String)
  /-- A number was given for a path, and no open file has it. -/
  | notOpen (number : Int)
  /-- A value is of a kind that cannot be worked with. -/
  | kind (e : KindError)
  /-- A text was to write an integer, and writes none. -/
  | notNumber (text : String)
  /-- A text was to write an integer, and writes one with too many digits. -/
  | tooManyDigits (digits : Nat)
  | encoding (f : Utf8.Fault)
  | noLexer
deriving DecidableEq, Repr

/-- The words for why bytes are no text. -/
def Utf8.Reason.message : Utf8.Reason → String
  | .badStart => "invalid start byte"
  | .badContinuation => "invalid continuation byte"
  | .unfinished => "unexpected end of data"

/-- The sentence that reports bytes that are no text. -/
def Utf8.Fault.message (f : Utf8.Fault) : String :=
  let place :=
    match f.bytes with
    | [b] =>
      "byte 0x" ++ String.ofList (Text.hexDigits 2 b.toNat) ++ " in position " ++ toString f.offset
    | bs => "bytes in position " ++ toString f.offset ++ "-" ++ toString (f.offset + bs.length - 1)
  "'utf-8' codec can't decode " ++ place ++ ": " ++ f.reason.message

/-- The sentence that reports a failure. -/
def Failure.message : Failure → String
  | .fault f => f.message
  | .unknownVariant name =>
    "Unknown scanner variant '" ++ name ++ "' (expected one of: " ++
      String.intercalate ", " (Variant.all.map Variant.name) ++ ")"
  | .unexpected index => "unexpected token at index " ++ toString index
  | .noText => "from_file or text parameter is required"
  | .missing path => "[Errno 2] No such file or directory: " ++ Text.quote path
  | .folder path => "[Errno 21] Is a directory: " ++ Text.quote path
  | .notFolder path => "[Errno 20] Not a directory: " ++ Text.quote path
  | .tooLong path => "[Errno 36] File name too long: " ++ Text.quote path
  | .badPath => "embedded null byte"
  | .notPath given => "expected str, bytes or os.PathLike object, not " ++ given
  | .notOpen number => if number < 0 then "negative file descriptor" else "[Errno 9] Bad file descriptor"
  | .kind e => e.message
  | .notNumber text => "invalid literal for int() with base 10: " ++ String.ofList ((Text.quote text).toList.take 200)
  | .tooManyDigits digits =>
    "Exceeds the limit (" ++ toString Text.maxDigits ++ " digits) for integer string conversion: value has " ++
      toString digits ++ " digits; use sys.set_int_max_str_digits() to increase the limit"
  | .encoding f => f.message
  | .noLexer =>
    "ANTLR token source requested but ANTLR dependencies not available. Install with: pip install dentlark[antlr]"

end Offside
