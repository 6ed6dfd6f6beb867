import Offside.Failure
import Offside.Stream.Steps
/-!
# Tokens of a text

The words and line breaks of a text with the markers of its indentation: a scanner for words, and a stream over it.
-/
namespace Offside

/-- The variant that an option value names.  A value that holds others is no name at all. -/
def Variant.ofDatum (value : Datum) : Except Failure Variant :=
  match value with
  | .text s =>
    match Variant.ofName? s with
    | some v => .ok v
    | none => .error (.unknownVariant s)
  | .list _ | .record _ => .error (.kind (.notSingle value.kind))
  | _ => .error (.unknownVariant value.display)

/-- The token types that the streams over the word scanners have. -/
def wordKinds : Kinds :=
  { indent := .name "INDENT"
    dedent := .name "DEDENT"
    newline := .name "NL"
    isSet := by decide
    distinct := by decide }

def wordConfig (policy : Policy) (unit : Nat) : Config :=
  { kinds := wordKinds, whitespace := [.name "WS"], policy, unit }

/-- The configuration of a stream over a word scanner, from option values: the policy is looked at first. -/
def wordConfigOfData (policy unit : Datum) : Except ConfigError Config := do
  let policy ← Policy.ofDatum policy
  let unit ← unitOfDatum unit
  return wordConfig policy unit

/-- All that a stream over a text's words gives. -/
def drainText (cfg : Config) (variant : Variant) (text : String) : Drained :=
  (Stream.ofConfig cfg).drain (variant.scanner.scan text)

/-- The tokens of a text with its markers, or the fault that ends them. -/
def tokenize (text : String) (variant : Variant) (policy : Policy) (unit : Nat) : Except Fault (List Token) :=
  (drainText (wordConfig policy unit) variant text).toExcept

end Offside
