/-!
# Line breaks of a file

A file may end its lines by a line feed, by a carriage return or by the two together.  Read as a text, all three become
one line feed.
-/
namespace Offside
namespace Text

/-- A text in which every line ends by a line feed. -/
def unifyBreaks : List Char → List Char
  | [] => []
  | '\r' :: '\n' :: rest => '\n' :: unifyBreaks rest
  | c :: rest => (if c == '\r' then '\n' else c) :: unifyBreaks rest

theorem not_mem_unifyBreaks (s : List Char) : '\r' ∉ unifyBreaks s := by
  fun_induction unifyBreaks s with
  | case1 => simp
  | case2 rest ih => simp [ih]
  | case3 c rest _ ih =>
    rw [List.mem_cons, not_or]
    refine ⟨?_, ih⟩
    by_cases h : c = '\r'
    · simp [h]
    · simp [h, Ne.symm h]

end Text
end Offside
