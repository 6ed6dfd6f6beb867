/-!
# Blanks

A blank is a space, a tab or a form feed: the characters that indentation is made of.  A line break is not one, and
neither is any other white space of the wider alphabet: a line that holds only a no-break space is a line with
content.  Two readings of a text rest on this: whether it is a run of blanks (`isBlank`), and what indentation it
carries behind its last line break (`trailingIndent`).
-/
namespace Offside
namespace Text

def isBlankChar (c : Char) : Bool :=
  c == ' ' || c == '\t' || c == '\x0c'

/-- Whether a text is a run of blanks, of at least one. -/
def isBlank (s : List Char) : Bool :=
  !s.isEmpty && s.all isBlankChar

/-- What stands behind the last line feed; the whole text where there is none. -/
def lastLine (s : List Char) : List Char :=
  (s.reverse.takeWhile (· != '\n')).reverse

/-- The indentation that a line break carries: the blanks behind its last line feed, or nothing where something else
stands there too, or where there is no line feed at all. -/
def trailingIndent (s : List Char) : List Char :=
  if s.contains '\n' && (lastLine s).all isBlankChar then lastLine s else []

theorem trailingIndent_of_not_mem {s : List Char} (h : '\n' ∉ s) : trailingIndent s = [] := by
  simp [trailingIndent, h]

theorem all_isBlankChar_trailingIndent (s : List Char) : (trailingIndent s).all isBlankChar = true := by
  unfold trailingIndent
  split
  · rename_i h
    exact (Bool.and_eq_true _ _ ▸ h).2
  · rfl

end Text
end Offside
