/-!
# White space

White space in the wide sense, of the whole alphabet: what is cut off the ends of a name or of an entry's text.  It
holds every blank and every line break, and the separators and special spaces beyond them.
-/
namespace Offside
namespace Text

/-- Whether a character is white space in the wide sense. -/
def isSpace (c : Char) : Bool :=
  let n := c.toNat
  (0x09 ≤ n && n ≤ 0x0d) || (0x1c ≤ n && n ≤ 0x20) || n == 0x85 || n == 0xa0 || n == 0x1680 ||
    (0x2000 ≤ n && n ≤ 0x200a) || n == 0x2028 || n == 0x2029 || n == 0x202f || n == 0x205f || n == 0x3000

def stripLeft (s : List Char) : List Char :=
  s.dropWhile isSpace

def stripRight (s : List Char) : List Char :=
  (s.reverse.dropWhile isSpace).reverse

def strip (s : List Char) : List Char :=
  stripRight (stripLeft s)

/-- The small letter of a character whose small letter is one of the first 128 characters: the capitals of the Latin
alphabet, and the sign for kelvin.  Every other character is left as it is, for none of them turns into one of the
first 128. -/
def lowerChar (c : Char) : Char :=
  if c == '\u212a' then 'k' else c.toLower

end Text
end Offside
