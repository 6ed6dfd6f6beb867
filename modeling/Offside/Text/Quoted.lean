import Offside.Text.Printable
/-!
# Quoted text

A text as one line of printable characters between two quotes.  The quote is the single one, or the double one where
the text holds a single quote and no double one.  The quote in use and the backslash are written behind a backslash,
tab, line feed and carriage return by their letters, and any other character that is not shown by its number in
hexadecimal digits, two, four or eight of them as the number needs.
-/
namespace Offside
namespace Text

/-- The quote that a text is written between. -/
def quoteFor (s : List Char) : Char :=
  if s.contains '\x27' && !s.contains '\x22' then '\x22' else '\x27'

def hexDigit (n : Nat) : Char :=
  if n < 10 then Char.ofNat (0x30 + n) else Char.ofNat (0x57 + n)

/-- The last `width` hexadecimal digits of a number. -/
def hexDigits : Nat → Nat → List Char
  | 0, _ => []
  | width + 1, n => hexDigits width (n / 16) ++ [hexDigit (n % 16)]

def numbered (n : Nat) : List Char :=
  if n < 0x100 then '\\' :: 'x' :: hexDigits 2 n
  else if n < 0x10000 then '\\' :: 'u' :: hexDigits 4 n
  else '\\' :: 'U' :: hexDigits 8 n

def escape (quote c : Char) : List Char :=
  if c == quote || c == '\\' then ['\\', c]
  else if c == '\t' then ['\\', 't']
  else if c == '\n' then ['\\', 'n']
  else if c == '\r' then ['\\', 'r']
  else if isPrintable c then [c]
  else numbered c.toNat

def quoted (s : List Char) : List Char :=
  quoteFor s :: s.flatMap (escape (quoteFor s)) ++ [quoteFor s]

def quote (s : String) : String :=
  String.ofList (quoted s.toList)

theorem length_hexDigits : ∀ (width n : Nat), (hexDigits width n).length = width
  | 0, _ => rfl
  | width + 1, n => by simp [hexDigits, length_hexDigits width]

end Text
end Offside
