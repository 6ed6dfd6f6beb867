import Mathlib.Algebra.Group.Nat.Defs
import Offside.Text.Quoted
/-!
# Quoted text is read back

A reader of quoted text goes from character to character and knows where it stands: between two characters of the text,
behind a backslash, inside a number, or behind the closing quote (`Unquoting`).  Whichever quote was chosen, it takes
each character's writing for this character and stands between characters again (`read_escape`), so that it finds every
text again (`unquoted_quoted`) and no two texts are written alike.  What is written never has a tab or a line break in
it, so it can stand in a field of a line.
-/
namespace Offside
namespace Text

/-- Where a reader of quoted text stands.  Inside a number it knows how many digits come behind the next one, and the
value of those it has read. -/
inductive QuoteState where
  | between
  | escaped
  | inNumber (behind value : Nat)
  | closed

/-- A reader of quoted text: the characters read, the last first, and where it stands. -/
structure Unquoting where
  read : List Char
  state : QuoteState

def digitValue (c : Char) : Nat :=
  if c.toNat < 0x3a then c.toNat - 0x30 else c.toNat - 0x57

namespace Unquoting

def start : Unquoting :=
  ⟨[], .between⟩

/-- The reader behind one more character of the text. -/
def push (u : Unquoting) (c : Char) : Unquoting :=
  ⟨c :: u.read, .between⟩

/-- The reader behind one more character of what is written; there is none behind the closing quote. -/
def step (quote : Char) (u : Unquoting) (c : Char) : Option Unquoting :=
  match u.state with
  | .between =>
    if c = quote then some { u with state := .closed }
    else if c = '\\' then some { u with state := .escaped }
    else some (u.push c)
  | .escaped =>
    match c with
    | 't' => some (u.push '\t')
    | 'n' => some (u.push '\n')
    | 'r' => some (u.push '\r')
    | 'x' => some { u with state := .inNumber 1 0 }
    | 'u' => some { u with state := .inNumber 3 0 }
    | 'U' => some { u with state := .inNumber 7 0 }
    | c => some (u.push c)
  | .inNumber 0 value => some (u.push (Char.ofNat (value * 16 + digitValue c)))
  | .inNumber (behind + 1) value => some { u with state := .inNumber behind (value * 16 + digitValue c) }
  | .closed => none

end Unquoting

/-- The text that stands between quotes, if that is all there is. -/
def unquoted : List Char → Option (List Char)
  | [] => none
  | quote :: cs =>
    match cs.foldlM (Unquoting.step quote) .start with
    | some ⟨read, .closed⟩ => some read.reverse
    | _ => none

/-! ## Numbers -/

theorem digitValue_hexDigit : ∀ n < 16, digitValue (hexDigit n) = n := by decide

theorem mem_hexDigits {c : Char} : ∀ {width n : Nat}, c ∈ hexDigits width n → ∃ d < 16, c = hexDigit d
  | 0, _, h => absurd h List.not_mem_nil
  | width + 1, n, h => by
    rcases List.mem_append.1 h with h | h
    · exact mem_hexDigits h
    · exact ⟨n % 16, Nat.mod_lt n (by decide), List.mem_singleton.1 h⟩

theorem hexDigits_succ_mod (width n : Nat) : n / 16 % 16 ^ width * 16 + n % 16 = n % 16 ^ (width + 1) := by
  rw [Nat.pow_succ, Nat.mul_comm (16 ^ width) 16, Nat.mod_mul]
  omega

section
variable {quote : Char} {read : List Char}

/-- Some digits of a number are read as their value behind those read before. -/
theorem read_hexDigits (width : Nat) : ∀ n behind value : Nat,
    (hexDigits width n).foldlM (Unquoting.step quote) ⟨read, .inNumber (width + behind) value⟩ =
      some ⟨read, .inNumber behind (value * 16 ^ width + n % 16 ^ width)⟩ := by
  induction width with
  | zero =>
    intro n behind value
    simp [hexDigits, Nat.mod_one]
  | succ width ih =>
    intro n behind value
    have hdigit := digitValue_hexDigit (n % 16) (Nat.mod_lt n (by decide))
    have hvalue : (value * 16 ^ width + n / 16 % 16 ^ width) * 16 + n % 16 =
        value * 16 ^ (width + 1) + n % 16 ^ (width + 1) := by
      rw [← hexDigits_succ_mod width n, Nat.pow_succ, Nat.add_mul, Nat.mul_assoc, Nat.add_assoc]
    rw [hexDigits, List.foldlM_append, show width + 1 + behind = width + (behind + 1) by omega, ih]
    simp only [Option.bind_eq_bind, Option.bind_some, List.foldlM_cons, List.foldlM_nil, Unquoting.step, hdigit, hvalue]
    rfl

/-- A number is read as the character that it counts. -/
theorem read_number {width n : Nat} (h : n < 16 ^ (width + 1)) :
    (hexDigits (width + 1) n).foldlM (Unquoting.step quote) ⟨read, .inNumber width 0⟩ =
      some ⟨Char.ofNat n :: read, .between⟩ := by
  have hdigit := digitValue_hexDigit (n % 16) (Nat.mod_lt n (by decide))
  have hvalue : (0 * 16 ^ width + n / 16 % 16 ^ width) * 16 + n % 16 = n := by
    rw [Nat.zero_mul, Nat.zero_add, hexDigits_succ_mod width n, Nat.mod_eq_of_lt h]
  have hfront : (hexDigits width (n / 16)).foldlM (Unquoting.step quote) ⟨read, .inNumber width 0⟩ = _ :=
    read_hexDigits width (n / 16) 0 0
  rw [hexDigits, List.foldlM_append, hfront]
  simp only [Option.bind_eq_bind, Option.bind_some, List.foldlM_cons, List.foldlM_nil, Unquoting.step, hdigit, hvalue]
  rfl

end

/-! ## Characters -/

theorem quoteFor_eq (s : List Char) : quoteFor s = '\x27' ∨ quoteFor s = '\x22' := by
  unfold quoteFor
  split
  · exact .inr rfl
  · exact .inl rfl

section
variable {quote : Char} (hquote : quote = '\x27' ∨ quote = '\x22') {read : List Char}
include hquote

theorem read_backslash : Unquoting.step quote ⟨read, .between⟩ '\\' = some ⟨read, .escaped⟩ := by
  rcases hquote with rfl | rfl <;> rfl

theorem read_numbered (c : Char) : (numbered c.toNat).foldlM (Unquoting.step quote) ⟨read, .between⟩ =
    some ⟨c :: read, .between⟩ := by
  have hread {width : Nat} (h : c.toNat < 16 ^ (width + 1)) :
      (hexDigits (width + 1) c.toNat).foldlM (Unquoting.step quote) ⟨read, .inNumber width 0⟩ =
        some ⟨c :: read, .between⟩ := by
    rw [read_number h, Char.ofNat_toNat]
  unfold numbered
  split
  · rename_i h
    rw [List.foldlM_cons, read_backslash hquote]
    exact hread h
  · split
    · rename_i h
      rw [List.foldlM_cons, read_backslash hquote]
      exact hread h
    · have h : c.toNat < 16 ^ 8 := c.val.toNat_lt
      rw [List.foldlM_cons, read_backslash hquote]
      exact hread h

/-- **What is written for a character is read as this character.** -/
theorem read_escape (c : Char) : (escape quote c).foldlM (Unquoting.step quote) ⟨read, .between⟩ =
    some ⟨c :: read, .between⟩ := by
  unfold escape
  split
  · rename_i h
    rw [List.foldlM_cons, read_backslash hquote]
    have hc : c = quote ∨ c = '\\' := by simpa using h
    rcases hc with rfl | rfl
    · rcases hquote with rfl | rfl <;> rfl
    · rfl
  · rename_i h
    have hc : ¬ c = quote ∧ ¬ c = '\\' := by simpa using h
    split
    · rename_i ht
      rw [eq_of_beq ht, List.foldlM_cons, read_backslash hquote]
      rfl
    · split
      · rename_i hn
        rw [eq_of_beq hn, List.foldlM_cons, read_backslash hquote]
        rfl
      · split
        · rename_i hr
          rw [eq_of_beq hr, List.foldlM_cons, read_backslash hquote]
          rfl
        · split
          · simp [Unquoting.step, Unquoting.push, hc]
          · exact read_numbered hquote c

theorem read_escapes (s : List Char) : ∀ read : List Char,
    (s.flatMap (escape quote)).foldlM (Unquoting.step quote) ⟨read, .between⟩ = some ⟨s.reverse ++ read, .between⟩ := by
  induction s with
  | nil => exact fun _ => rfl
  | cons c s ih =>
    intro read
    rw [List.flatMap_cons, List.foldlM_append, read_escape hquote]
    simp [ih]

end

/-- **What is written between quotes is the text that was to be written.** -/
theorem unquoted_quoted (s : List Char) : unquoted (quoted s) = some s := by
  have hbody := read_escapes (quoteFor_eq s) s []
  have hclose : Unquoting.step (quoteFor s) ⟨s.reverse ++ [], .between⟩ (quoteFor s) =
      some ⟨s.reverse ++ [], .closed⟩ := by
    simp [Unquoting.step]
  unfold unquoted quoted
  rw [List.cons_append]
  simp only [List.foldlM_append, Unquoting.start, hbody, Option.bind_eq_bind, Option.bind_some, List.foldlM_cons,
    List.foldlM_nil, hclose]
  simp

theorem quote_injective : Function.Injective quote := by
  intro s t h
  have hquoted : quoted s.toList = quoted t.toList := String.ofList_injective h
  have hread := unquoted_quoted s.toList
  rw [hquoted, unquoted_quoted] at hread
  exact String.toList_injective (Option.some.inj hread).symm

/-! ## What is written -/

/-- Whether a character would end a field or a line. -/
def endsField (c : Char) : Bool :=
  c == '\t' || c == '\n' || c == '\r'

theorem endsField_hexDigit : ∀ n < 16, endsField (hexDigit n) = false := by decide

theorem endsField_of_mem_numbered {n : Nat} : ∀ c ∈ numbered n, endsField c = false := by
  have hdigits {width : Nat} : ∀ c ∈ hexDigits width n, endsField c = false := fun c hc => by
    obtain ⟨d, hd, rfl⟩ := mem_hexDigits hc
    exact endsField_hexDigit d hd
  unfold numbered
  split
  · exact List.forall_mem_cons.2 ⟨rfl, List.forall_mem_cons.2 ⟨rfl, hdigits⟩⟩
  · split
    · exact List.forall_mem_cons.2 ⟨rfl, List.forall_mem_cons.2 ⟨rfl, hdigits⟩⟩
    · exact List.forall_mem_cons.2 ⟨rfl, List.forall_mem_cons.2 ⟨rfl, hdigits⟩⟩

theorem endsField_of_mem_escape {quote : Char} (hquote : endsField quote = false) (c : Char) :
    ∀ x ∈ escape quote c, endsField x = false := by
  have hletter {x : Char} (hx : endsField x = false) : ∀ y ∈ ['\\', x], endsField y = false :=
    List.forall_mem_cons.2 ⟨rfl, List.forall_mem_cons.2 ⟨hx, List.forall_mem_nil _⟩⟩
  unfold escape
  split
  · rename_i h
    have hc : c = quote ∨ c = '\\' := by simpa using h
    rcases hc with rfl | rfl
    · exact hletter hquote
    · exact hletter rfl
  · split
    · exact hletter rfl
    · split
      · exact hletter rfl
      · split
        · exact hletter rfl
        · split
          · rename_i ht hn hr _
            refine List.forall_mem_cons.2 ⟨?_, List.forall_mem_nil _⟩
            rw [endsField, Bool.eq_false_iff.2 ht, Bool.eq_false_iff.2 hn, Bool.eq_false_iff.2 hr]
            rfl
          · exact endsField_of_mem_numbered

/-- **What is written between quotes ends no field and no line.** -/
theorem endsField_of_mem_quoted {s : List Char} : ∀ c ∈ quoted s, endsField c = false := by
  have hquote : endsField (quoteFor s) = false := by
    rcases quoteFor_eq s with h | h <;> rw [h] <;> rfl
  intro c hc
  simp only [quoted, List.cons_append, List.mem_cons, List.mem_append, List.mem_flatMap, List.not_mem_nil,
    or_false] at hc
  rcases hc with rfl | ⟨x, -, hx⟩ | rfl
  · exact hquote
  · exact endsField_of_mem_escape hquote x c hx
  · exact hquote

end Text
end Offside
