import Offside.Source
/-!
# Line scanners

A scanner cuts a text into words, blanks and line breaks.  The first character says which of the three is next, so
there is never a choice, and each is taken as long as it goes.  A line break is a line feed, alone or behind a carriage
return; a carriage return that no line feed follows is the one thing that cannot be read, and ends the tokens with a
fault.

Scanners differ in what goes on inside a word, in whether a run of blanks is one token or one for each character, and
in whether blanks become tokens at all.
-/
namespace Offside

/-- Where a scanner stands: how many characters are behind it, and its line and column. -/
structure Cursor where
  offset : Nat
  line : Nat
  column : Nat
deriving DecidableEq, Repr

namespace Cursor

def start : Cursor :=
  ⟨0, 1, 1⟩

/-- Behind one more character.  A line feed begins a line. -/
def step (pos : Cursor) (c : Char) : Cursor :=
  if c = '\n' then ⟨pos.offset + 1, pos.line + 1, 1⟩ else ⟨pos.offset + 1, pos.line, pos.column + 1⟩

def advance (pos : Cursor) (s : List Char) : Cursor :=
  s.foldl step pos

def place (pos : Cursor) : Place :=
  ⟨.int pos.offset, .int pos.line, .int pos.column⟩

theorem advance_append (pos : Cursor) (s t : List Char) : pos.advance (s ++ t) = (pos.advance s).advance t :=
  List.foldl_append

/-- Every character takes one offset. -/
theorem offset_advance (s : List Char) : ∀ pos : Cursor, (pos.advance s).offset = pos.offset + s.length := by
  induction s with
  | nil => intro pos; rfl
  | cons c s ih =>
    intro pos
    show ((pos.step c).advance s).offset = _
    rw [ih, List.length_cons]
    unfold step
    split <;> simp <;> omega

end Cursor

/-- How a scanner cuts a text: the types of its tokens, which can be looked up, which characters go on inside a word, and
whether it joins blanks and keeps them. -/
structure Scanner where
  wordType : TokenType
  blankType : TokenType
  newlineType : TokenType
  inWord : Char → Bool
  joinBlanks : Bool
  keepBlanks : Bool
  single : wordType.isSingle ∧ blankType.isSingle ∧ newlineType.isSingle

namespace Scanner

/-- A piece of text with a type, or with none where the scanner drops it. -/
structure Lexeme where
  type : Option TokenType
  text : List Char
deriving DecidableEq, Repr

/-- The lexeme at the front of a text that is not empty, and the rest; nothing at a stray carriage return. -/
def lexeme? (sc : Scanner) (c : Char) (rest : List Char) : Option (Lexeme × List Char) :=
  if Text.isBlankChar c then
    let type := if sc.keepBlanks then some sc.blankType else none
    if sc.joinBlanks then some (⟨type, c :: rest.takeWhile Text.isBlankChar⟩, rest.dropWhile Text.isBlankChar)
    else some (⟨type, [c]⟩, rest)
  else if c = '\n' then some (⟨some sc.newlineType, [c]⟩, rest)
  else if c = '\r' then
    match rest with
    | '\n' :: rest => some (⟨some sc.newlineType, ['\r', '\n']⟩, rest)
    | _ => none
  else some (⟨some sc.wordType, c :: rest.takeWhile sc.inWord⟩, rest.dropWhile sc.inWord)

/-- A lexeme and what follows it make up the text. -/
theorem lexeme?_append {sc : Scanner} {c : Char} {rest : List Char} {l : Lexeme} {more : List Char}
    (h : sc.lexeme? c rest = some (l, more)) : l.text ++ more = c :: rest := by
  unfold lexeme? at h
  repeat' split at h
  all_goals simp only [Option.some.injEq, Prod.mk.injEq, reduceCtorEq] at h
  all_goals obtain ⟨rfl, rfl⟩ := h
  all_goals simp [*]

theorem lexeme?_text_ne_nil {sc : Scanner} {c : Char} {rest : List Char} {l : Lexeme} {more : List Char}
    (h : sc.lexeme? c rest = some (l, more)) : l.text ≠ [] := by
  unfold lexeme? at h
  repeat' split at h
  all_goals simp only [Option.some.injEq, Prod.mk.injEq, reduceCtorEq] at h
  all_goals obtain ⟨rfl, rfl⟩ := h
  all_goals simp

theorem isSingle_of_lexeme? {sc : Scanner} {c : Char} {rest : List Char} {l : Lexeme} {more : List Char}
    (h : sc.lexeme? c rest = some (l, more)) : ∀ type ∈ l.type, type.isSingle = true := by
  obtain ⟨hword, hblank, hnewline⟩ := sc.single
  unfold lexeme? at h
  repeat' split at h
  all_goals simp only [Option.some.injEq, Prod.mk.injEq, reduceCtorEq] at h
  all_goals obtain ⟨rfl, rfl⟩ := h
  all_goals simp [*]

theorem length_lt_of_lexeme? {sc : Scanner} {c : Char} {rest : List Char} {l : Lexeme} {more : List Char}
    (h : sc.lexeme? c rest = some (l, more)) : more.length < (c :: rest).length := by
  have happ := congrArg List.length (lexeme?_append h)
  have hne := List.length_pos_iff.2 (lexeme?_text_ne_nil h)
  rw [List.length_append] at happ
  omega

def Lexeme.token? (l : Lexeme) (start stop : Cursor) : Option Token :=
  l.type.map (fun type =>
    { type, value := String.ofList l.text, start := start.place, stop := stop.place, level := none })

/-- The tokens of a text from a cursor on, and a fault where it cannot be read. -/
def scanFrom (sc : Scanner) (pos : Cursor) : List Char → Source
  | [] => []
  | c :: rest =>
    match _h : sc.lexeme? c rest with
    | none => [.fault (.stray ⟨pos.offset, pos.line, pos.column⟩)]
    | some (l, more) =>
      let stop := pos.advance l.text
      ((l.token? pos stop).map Reply.token).toList ++ sc.scanFrom stop more
termination_by s => s.length
decreasing_by exact length_lt_of_lexeme? (by assumption)

def scan (sc : Scanner) (text : String) : Source :=
  sc.scanFrom .start text.toList

/-- What goes on inside a word: anything but a blank or a character of a line break. -/
def isWordChar (c : Char) : Bool :=
  !Text.isBlankChar c && c != '\r' && c != '\n'

/-- What goes on inside a line: anything but a character of a line break. -/
def isLineChar (c : Char) : Bool :=
  c != '\r' && c != '\n'

end Scanner

/-- The scanners for words: with one token for a run of blanks, with one for each blank, and without any. -/
inductive Variant where
  | space
  | spaces
  | ignore
deriving DecidableEq, Repr

namespace Variant

/-- Every variant, in the order in which a refusal lists them. -/
def all : List Variant :=
  [.space, .spaces, .ignore]

def name : Variant → String
  | .space => "space"
  | .spaces => "spaces"
  | .ignore => "ignore"

def ofName? (s : String) : Option Variant :=
  all.find? (fun v => v.name == s)

def scanner (v : Variant) : Scanner :=
  { wordType := .name "WORD"
    blankType := .name "WS"
    newlineType := .name "NL"
    inWord := Scanner.isWordChar
    joinBlanks := v != .spaces
    keepBlanks := v != .ignore
    single := by decide }

theorem ofName?_name (v : Variant) : ofName? v.name = some v := by
  cases v <;> rfl

end Variant
end Offside
