import Mathlib.Data.List.DropRight
/-!
# Cutting lists

Where a list is cut in two by a property of its elements, an element without the property decides the cut: nothing
behind it matters to a cut from the front, and nothing before it to one from the back.
-/
namespace Offside

variable {α : Type} {p : α → Bool} {y : α}

theorem takeWhile_append_cons (hy : p y = false) (zs : List α) :
    ∀ xs : List α, (xs ++ y :: zs).takeWhile p = xs.takeWhile p
  | [] => by simp [hy]
  | x :: xs => by
    rw [List.cons_append, List.takeWhile_cons, List.takeWhile_cons, takeWhile_append_cons hy zs xs]

theorem dropWhile_append_cons (hy : p y = false) (zs : List α) :
    ∀ xs : List α, (xs ++ y :: zs).dropWhile p = xs.dropWhile p ++ y :: zs
  | [] => by simp [hy]
  | x :: xs => by
    rw [List.cons_append, List.dropWhile_cons, List.dropWhile_cons, dropWhile_append_cons hy zs xs]
    split <;> rfl

theorem takeWhile_congr {q : α → Bool} : ∀ {l : List α}, (∀ x ∈ l, p x = q x) → l.takeWhile p = l.takeWhile q
  | [], _ => rfl
  | x :: l, h => by
    obtain ⟨hx, hl⟩ := List.forall_mem_cons.1 h
    rw [List.takeWhile_cons, List.takeWhile_cons, hx, takeWhile_congr hl]

theorem takeWhile_append {zs : List α} (hz : ∀ z ∈ zs.head?, p z = false) (xs : List α) :
    (xs ++ zs).takeWhile p = xs.takeWhile p := by
  cases zs with
  | nil => rw [List.append_nil]
  | cons z zs => exact takeWhile_append_cons (hz z rfl) zs xs

theorem dropWhile_append {zs : List α} (hz : ∀ z ∈ zs.head?, p z = false) (xs : List α) :
    (xs ++ zs).dropWhile p = xs.dropWhile p ++ zs := by
  cases zs with
  | nil => rw [List.append_nil, List.append_nil]
  | cons z zs => exact dropWhile_append_cons (hz z rfl) zs xs

/-- An element without the property anywhere in a list decides the cut of all that begins with the list. -/
theorem takeWhile_append_of_mem {xs : List α} (hmem : y ∈ xs) (hy : p y = false) (zs : List α) :
    (xs ++ zs).takeWhile p = xs.takeWhile p := by
  obtain ⟨front, rest, rfl⟩ := List.append_of_mem hmem
  rw [List.append_assoc, List.cons_append, takeWhile_append_cons hy, takeWhile_append_cons hy]

theorem dropWhile_append_of_mem {xs : List α} (hmem : y ∈ xs) (hy : p y = false) (zs : List α) :
    (xs ++ zs).dropWhile p = xs.dropWhile p ++ zs := by
  obtain ⟨front, rest, rfl⟩ := List.append_of_mem hmem
  rw [List.append_assoc, List.cons_append, dropWhile_append_cons hy, dropWhile_append_cons hy, List.append_assoc,
    List.cons_append]

/-- What is left behind a cut begins with an element without the property. -/
theorem head_dropWhile (p : α → Bool) (l : List α) : ∀ x ∈ (l.dropWhile p).head?, p x = false := by
  intro x hx
  have hnot := List.head?_dropWhile_not p l
  rw [Option.mem_def.1 hx] at hnot
  simpa using hnot

theorem rtakeWhile_append_cons (hy : p y = false) (xs l : List α) :
    (xs ++ y :: l).rtakeWhile p = l.rtakeWhile p := by
  induction l using List.reverseRecOn with
  | nil => simp [hy]
  | append_singleton l x ih =>
    rw [← List.cons_append, ← List.append_assoc, List.rtakeWhile_concat, List.rtakeWhile_concat, ih]

theorem rdropWhile_append_cons (hy : p y = false) (xs l : List α) :
    (xs ++ y :: l).rdropWhile p = xs ++ y :: l.rdropWhile p := by
  induction l using List.reverseRecOn with
  | nil => simp [hy]
  | append_singleton l x ih =>
    rw [← List.cons_append, ← List.append_assoc, List.rdropWhile_concat, List.rdropWhile_concat, ih]
    cases p x <;> simp

end Offside
