import Offside.Datum.Arithmetic
import Offside.Policy
import Offside.Token
/-!
# Configuration

What a stream is told about the tokens it reads and writes: the types of opening markers, closing markers and line
breaks, which types are white space, where white space goes, and how many columns one level is wide, zero where the
first indented line decides.  Each of the three types stands for something, and no two are the same; a `Config` that
breaks this cannot be written down.
-/
namespace Offside

/-- Why a stream is not, or cannot be, configured. -/
inductive ConfigError where
  | notConfigured
  | alreadyConfigured
  | emptyType
  | equalTypes (indent dedent newline : TokenType)
  | badUnit (shown : String)
  | unknownPolicy (name : String)
  /-- A value is of a kind that cannot be worked with. -/
  | kind (e : KindError)
deriving DecidableEq, Repr

def ConfigError.message : ConfigError → String
  | .notConfigured => "The token types are not configured. Call configure() first."
  | .alreadyConfigured => "The transformer is already configured"
  | .emptyType => "INDENT, DEDENT and newline token types must all be non-empty"
  | .equalTypes indent dedent newline =>
    "INDENT, DEDENT and newline token types must differ, got (" ++
      String.intercalate ", " [indent.shown, dedent.shown, newline.shown] ++ ")"
  | .badUnit shown => "Indent unit must be a non-negative integer, got " ++ shown
  | .unknownPolicy name =>
    "Unknown whitespace policy '" ++ name ++ "' (expected one of: " ++
      String.intercalate ", " (Policy.all.map Policy.name) ++ ")"
  | .kind e => e.message

def Policy.ofDatum (value : Datum) : Except ConfigError Policy :=
  match Policy.ofName? value.display with
  | some p => .ok p
  | none => .error (.unknownPolicy value.display)

/-- The indent unit that an option value gives: an integer from zero on, and nothing else. -/
def unitOfDatum (value : Datum) : Except ConfigError Nat :=
  match value with
  | .int (.ofNat n) => .ok n
  | _ => .error (.badUnit value.shown)

/-- A token type that is to be a member of a set, or looked up in one. -/
def TokenType.single (type : TokenType) : Except KindError TokenType :=
  if type.isSingle then .ok type else .error (.notSingle type.toDatum.kind)

/-- The set of token types that an option value lists, each once. -/
def typesOfDatum (value : Datum) : Except KindError (List TokenType) := do
  let members ← (← value.listed).mapM (fun member => (TokenType.ofDatum member).single)
  return TokenType.distinct members

/-- A set of token types in ascending order, which is refused where two of them have none. -/
def sortedTypes (types : List TokenType) : Except KindError (List TokenType) :=
  match TokenType.unordered? types with
  | some (first, second) => .error (.unordered second.toDatum.kind first.toDatum.kind)
  | none => .ok (types.mergeSort TokenType.le)

/-- The types of opening markers, closing markers and line breaks. -/
structure Kinds where
  indent : TokenType
  dedent : TokenType
  newline : TokenType
  isSet : indent.isSet ∧ dedent.isSet ∧ newline.isSet
  distinct : indent.key ≠ dedent.key ∧ indent.key ≠ newline.key ∧ dedent.key ≠ newline.key
deriving DecidableEq

/-- Three types as the types of a stream's markers and line breaks. -/
def Kinds.make (indent dedent newline : TokenType) : Except ConfigError Kinds :=
  if isSet : indent.isSet ∧ dedent.isSet ∧ newline.isSet then
    if distinct : indent.key ≠ dedent.key ∧ indent.key ≠ newline.key ∧ dedent.key ≠ newline.key then
      .ok { indent, dedent, newline, isSet, distinct }
    else .error (.equalTypes indent dedent newline)
  else .error .emptyType

/-- The types of markers and line breaks from option values: whether each stands for something is looked at first. -/
def Kinds.ofData (indent dedent newline : Datum) : Except ConfigError Kinds :=
  let single (value : Datum) : Except ConfigError TokenType := (TokenType.ofDatum value).single.mapError .kind
  if indent.isSet && dedent.isSet && newline.isSet then do
    Kinds.make (← single indent) (← single dedent) (← single newline)
  else .error .emptyType

structure Config where
  kinds : Kinds
  whitespace : List TokenType
  policy : Policy
  unit : Nat
deriving DecidableEq

inductive TokenClass where
  | newline
  | whitespace
  | other
deriving DecidableEq, Repr

namespace Config

/-- What a token is: a line break by its type; white space by its type where the configuration lists such types, and by
its text, a run of blanks, where it lists none. -/
def classify (cfg : Config) (t : Token) : TokenClass :=
  if t.type.key = cfg.kinds.newline.key then .newline
  else if cfg.whitespace.isEmpty then
    if Text.isBlank t.value.toList then .whitespace else .other
  else if cfg.whitespace.any (fun type => type.key == t.type.key) then .whitespace
  else .other

/-- Whether it can be told what a token is.  One that is no line break is looked up in the set of white space types,
unless the set is empty, and is not found there by a type that cannot be looked up. -/
def knows (cfg : Config) (t : Token) : Bool :=
  cfg.classify t != .other || cfg.whitespace.isEmpty || t.type.isSingle

/-- What a token is, or that its type cannot be looked up. -/
def classOf (cfg : Config) (t : Token) : Except KindError TokenClass :=
  if cfg.knows t then .ok (cfg.classify t) else .error (.notSingle t.type.toDatum.kind)

/-- The types that a scanner must be ready to give at any moment: line breaks, then white space in ascending order. -/
def alwaysAccept (cfg : Config) : Except KindError (List TokenType) :=
  (sortedTypes cfg.whitespace).map (cfg.kinds.newline :: ·)

/-- A configuration from option values.  The set of white space types is looked at first, then the policy, the three
types and the unit. -/
def ofData (indent dedent newline whitespace policy unit : Datum) : Except ConfigError Config := do
  let whitespace ← (typesOfDatum whitespace).mapError .kind
  let policy ← Policy.ofDatum policy
  let kinds ← Kinds.ofData indent dedent newline
  let unit ← unitOfDatum unit
  return { kinds, whitespace, policy, unit }

theorem classify_eq_newline (cfg : Config) (t : Token) :
    cfg.classify t = .newline ↔ t.type.key = cfg.kinds.newline.key := by
  unfold classify
  repeat' split
  all_goals simp_all

section
variable {cfg : Config} {t : Token}

theorem knows_of_ne_other (h : cfg.classify t ≠ .other) : cfg.knows t = true := by
  simp [knows, h]

theorem knows_of_isSingle (h : t.type.isSingle = true) : cfg.knows t = true := by
  simp [knows, h]

theorem classOf_of_knows (h : cfg.knows t = true) : cfg.classOf t = .ok (cfg.classify t) :=
  if_pos h

theorem classOf_of_gap {c : TokenClass} (h : cfg.classify t = c) (hc : c ≠ .other) : cfg.classOf t = .ok c := by
  rw [classOf_of_knows (knows_of_ne_other (h ▸ hc)), h]

theorem classOf_eq_ok_iff {c : TokenClass} : cfg.classOf t = .ok c ↔ cfg.knows t = true ∧ cfg.classify t = c := by
  unfold classOf
  by_cases h : cfg.knows t = true <;> simp [h]

theorem classify_of_classOf {c : TokenClass} (h : cfg.classOf t = .ok c) : cfg.classify t = c :=
  (classOf_eq_ok_iff.1 h).2

/-- Only what is no line break and not found among white space is looked up in vain. -/
theorem classify_of_unknown {e : KindError} (h : cfg.classOf t = .error e) : cfg.classify t = .other := by
  by_cases hc : cfg.classify t = .other
  · exact hc
  · rw [classOf_of_knows (knows_of_ne_other hc)] at h
    cases h

/-- What cannot be looked up is no single value. -/
theorem single_of_classOf {e : KindError} (h : cfg.classOf t = .error e) : t.type.single = .error e := by
  unfold classOf at h
  split at h
  · cases h
  · rename_i hk
    obtain rfl := Except.error.inj h
    exact if_neg fun hs => hk (knows_of_isSingle hs)

end

end Config

/-- Checks one behind the other are passed only where each is. -/
theorem exists_of_bind {ε α β : Type} {x : Except ε α} {k : α → Except ε β} {b : β} (h : (x >>= k) = .ok b) :
    ∃ a, x = .ok a ∧ k a = .ok b := by
  cases x with
  | error e => cases h
  | ok a => exact ⟨a, rfl, h⟩

end Offside
