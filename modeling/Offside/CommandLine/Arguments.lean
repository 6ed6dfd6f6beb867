import Offside.CommandLine.Usage
import Offside.Text.Integer
/-!
# Reading the command line

Each argument is first looked at by itself: it is an option, written in full or by an unmistakable beginning, with or
without a value attached; or it looks like an option but is none; or it is plain.  Behind two dashes everything is
plain, and so is a negative number, and whatever begins with a dash and holds a space but names no option.

The arguments are then taken in order.  An option that needs a value and has none attached takes the plain argument
that follows it.  The first other plain argument is the input file; what is left over is refused at the end, after it
is known that there is an input file.
-/
namespace Offside
namespace CommandLine

/-- An argument looked at by itself. -/
inductive Argument where
  | plain (s : String)
  /-- The two dashes behind which everything is plain. -/
  | endOfOptions
  /-- An option, behind one dash or two, and the value attached to it. -/
  | option (f : Flag) (short : Bool) (attached : Option (List Char))
  /-- What looks like an option, but is none. -/
  | unknown (s : String)
deriving DecidableEq, Repr

/-- What the command line asks for.  Two dashes in the place of a value count as no value, and are found out only
where the value is needed. -/
structure Options where
  file : String
  variant : Option Variant
  policy : Option Policy
  unit : Option Int
  tree : Bool
  verbose : Bool
deriving DecidableEq, Repr

/-- Why a command line asks for nothing to be done: help is wanted, or it is wrong. -/
inductive Refusal where
  | help
  | usage (problem : String)
deriving DecidableEq, Repr

def Refusal.ofFlag (f : Flag) (problem : String) : Refusal :=
  .usage ("argument " ++ f.label ++ ": " ++ problem)

def splitEquals (s : List Char) : List Char × Option (List Char) :=
  match s.dropWhile (· != '=') with
  | [] => (s, none)
  | _ :: value => (s.takeWhile (· != '='), some value)

/-- Whether a text writes a negative number: a dash and digits, of which a point may stand in front of the last ones. -/
def isNegativeNumber (s : List Char) : Bool :=
  let isDigit (c : Char) : Bool := (Text.digit? c).isSome
  -- a line feed at the very end does not count
  let s := if s.getLast? == some '\n' then s.dropLast else s
  match s with
  | '-' :: rest =>
    match rest.dropWhile isDigit with
    | [] => !rest.isEmpty
    | '.' :: more => !more.isEmpty && more.all isDigit
    | _ => false
  | _ => false

/-- The options that an argument which names none in full may stand for, as they are written in full.  Behind two
dashes any beginning will do; behind one, the first letter decides, and the rest is attached to it. -/
def candidates (s : List Char) : List (String × Argument) :=
  match s with
  | '-' :: '-' :: _ =>
    let (front, value) := splitEquals s
    (Flag.spellings.filter (fun p => front.isPrefixOf p.1.toList)).map
      (fun p => (p.1, .option p.2 false value))
  | '-' :: c :: rest =>
    (Flag.spellings.filter (fun p => p.1.toList == ['-', c])).map
      (fun p => (p.1, .option p.2 true (some rest)))
  | _ => []

def Argument.ofString (arg : String) : Except Refusal Argument :=
  let s := arg.toList
  match s with
  | '-' :: _ :: _ =>
    match Flag.ofSpelling? arg with
    | some f => .ok (.option f (s.length == 2) none)
    | none =>
      let (front, value) := splitEquals s
      match value, Flag.ofSpelling? (String.ofList front) with
      | some v, some f => .ok (.option f (front.length == 2) (some v))
      | _, _ =>
        match candidates s with
        | [] => .ok (if isNegativeNumber s || s.contains ' ' then .plain arg else .unknown arg)
        | [(_, a)] => .ok a
        | several =>
          .error (.usage ("ambiguous option: " ++ arg ++ " could match " ++
            String.intercalate ", " (several.map Prod.fst)))
  | _ => .ok (.plain arg)

def Argument.ofStrings : List String → Except Refusal (List Argument)
  | [] => .ok []
  | arg :: rest =>
    if arg = "--" then .ok (.endOfOptions :: rest.map .plain)
    else do
      let a ← ofString arg
      let as ← ofStrings rest
      return a :: as

/-- What is known after some of the arguments. -/
structure State where
  file : Option String
  extras : List String
  variant : Option Variant
  policy : Option Policy
  unit : Option Int
  tree : Bool
  verbose : Bool

def State.start : State :=
  { file := none, extras := [], variant := some .space, policy := some .after, unit := some 0, tree := false,
    verbose := false }

def badChoice (f : Flag) (value : String) (choices : List String) : Refusal :=
  .ofFlag f ("invalid choice: " ++ Text.quote value ++ " (choose from " ++
    String.intercalate ", " (choices.map Text.quote) ++ ")")

def State.setValue (st : State) (f : Flag) (value : String) : Except Refusal State :=
  let missing := value == "--"
  match f with
  | .variant =>
    match Variant.ofName? value with
    | some variant => .ok { st with variant := some variant }
    | none => if missing then .ok { st with variant := none } else .error (badChoice f value variantNames)
  | .policy =>
    match Policy.all.find? (fun p => p.name == value) with
    | some policy => .ok { st with policy := some policy }
    | none => if missing then .ok { st with policy := none } else .error (badChoice f value policyNames)
  | .indentUnit =>
    match Text.integer? value.toList with
    | some unit => .ok { st with unit := some unit }
    | none =>
      if missing then .ok { st with unit := none }
      else .error (.ofFlag f ("invalid int value: " ++ Text.quote value))
  | _ => .ok st

def State.set (st : State) (f : Flag) : Except Refusal State :=
  match f with
  | .help => .error .help
  | .tree => .ok { st with tree := true }
  | .verbose => .ok { st with verbose := true }
  | _ => .ok st

def ignored (f : Flag) (value : List Char) : Refusal :=
  .ofFlag f ("ignored explicit argument " ++ Text.quote (String.ofList value))

/-- The options written behind one dash: the first of them, and one for every letter attached to it, each of which has
to name one. -/
def bundle (f : Flag) (letters : List Char) : Except Refusal (List Flag) :=
  match letters with
  | [] => .error (ignored f letters)
  | c :: rest =>
    match Flag.ofSpelling? (String.ofList ['-', c]), rest with
    | none, _ => .error (ignored f letters)
    | some g, [] => .ok [f, g]
    | some g, rest => (bundle g rest).map (f :: ·)

def State.take (st : State) : List Argument → Except Refusal State
  | [] => .ok st
  | .plain s :: rest =>
    match st.file, rest with
    | some _, rest => State.take { st with extras := st.extras ++ [s] } rest
    | none, .endOfOptions :: rest => State.take { st with file := some s } rest
    | none, rest => State.take { st with file := some s } rest
  | .endOfOptions :: rest =>
    match st.file, rest with
    | none, .plain s :: rest => State.take { st with file := some s } rest
    | _, rest => State.take { st with extras := st.extras ++ ["--"] } rest
  | .unknown s :: rest => State.take { st with extras := st.extras ++ [s] } rest
  | .option f _ none :: rest =>
    if f.takesValue then
      match rest with
      | .plain value :: rest => do State.take (← st.setValue f value) rest
      | _ => .error (.ofFlag f "expected one argument")
    else do State.take (← st.set f) rest
  | .option f short (some value) :: rest =>
    if f.takesValue then do State.take (← st.setValue f (String.ofList value)) rest
    else if short then do State.take (← (← bundle f value).foldlM State.set st) rest
    else .error (ignored f value)

def parse (args : List String) : Except Refusal Options := do
  let as ← Argument.ofStrings args
  let st ← State.start.take as
  match st.file with
  | none => .error (.usage "the following arguments are required: input_file")
  | some file =>
    if st.extras.isEmpty then
      return { file, variant := st.variant, policy := st.policy, unit := st.unit, tree := st.tree,
               verbose := st.verbose }
    else .error (.usage ("unrecognized arguments: " ++ String.intercalate " " st.extras))

end CommandLine
end Offside
