import Offside.Outline.Grammar
import Offside.Proofs.Outline.Shallower
/-!
# Reading lines and blocks

What the reader of the grammar makes of a row of lines with levels, between which markers lead from each level to the
next: their forest by levels (`Reader.Holds`).  A skipped level is a block without a line of its own.  It joins the
lines around it when it is closed, and since they are all deeper than what it stands in, that is where they belong
anyway.
-/
namespace Offside
namespace Outline

open Forest (ofLevels)

/-! ## Blocks -/

/-- What a block at a level holds of the lines read since it was opened.  They are all at its level or below; its nodes
are their forest, and its line is the last of them, at just that level. -/
inductive Block.Holds (level : Nat) : Block → List (Nat × Token) → Prop where
  | closed {finished : List (Token × Forest Token)} {lines : List (Nat × Token)} (deep : ∀ x ∈ lines, level ≤ x.1)
      (roots : finished.reverse = (ofLevels lines).roots) : Holds level ⟨finished, none⟩ lines
  | line {finished : List (Token × Forest Token)} {lines : List (Nat × Token)} (deep : ∀ x ∈ lines, level ≤ x.1)
      (roots : finished.reverse = (ofLevels lines).roots) (t : Token) :
      Holds level ⟨finished, some t⟩ (lines ++ [(level, t)])

/-- Whether a block may be opened inside another one. -/
def Block.IsOpen (b : Block) : Prop :=
  b.line.isSome = true ∨ b.isEmpty = true

namespace Block

variable {b inner : Block} {level : Nat} {lines more : List (Nat × Token)}

theorem holds_empty (level : Nat) : Block.empty.Holds level [] :=
  .closed (by simp) (by rw [ofLevels]; rfl)

theorem Holds.deep (h : b.Holds level lines) : ∀ x ∈ lines, level ≤ x.1 := by
  cases h with
  | closed deep _ => exact deep
  | line deep _ t =>
    intro x hx
    rcases List.mem_append.1 hx with hx | hx
    · exact deep x hx
    · rw [List.mem_singleton.1 hx]

theorem Holds.nodes_eq (h : b.Holds level lines) : b.nodes.reverse = (ofLevels lines).roots := by
  cases h with
  | closed _ roots => exact roots
  | line deep roots t =>
    have hlast : ofLevels [(level, t)] = .node t .nil .nil := by
      rw [Forest.ofLevels_cons_of_lt (by simp), ofLevels]
    rw [Forest.roots_ofLevels_append _ _ _ deep, hlast, ← roots]
    exact List.reverse_cons

theorem Holds.forest_eq (h : b.Holds level lines) : b.forest = ofLevels lines := by
  rw [forest, h.nodes_eq, Forest.ofRoots_roots]

theorem Holds.addLine (h : b.Holds level lines) (t : Token) : (b.addLine t).Holds level (lines ++ [(level, t)]) :=
  .line h.deep h.nodes_eq t

/-- A block that closes goes below the line in front of it, or joins a block that holds nothing else. -/
theorem Holds.addBlock (h : b.Holds level lines) (hopen : b.IsOpen) (hi : inner.Holds (level + 1) more) :
    (b.addBlock inner).Holds level (lines ++ more) := by
  have hdeep : ∀ x ∈ lines ++ more, level ≤ x.1 := by
    intro x hx
    rcases List.mem_append.1 hx with hx | hx
    · exact h.deep x hx
    · exact Nat.le_of_succ_le (hi.deep x hx)
  cases h with
  | @closed finished lines _ roots =>
    obtain ⟨rfl⟩ : finished = [] := by simpa [IsOpen, isEmpty] using hopen
    have hlines : lines = [] := by
      cases lines with
      | nil => rfl
      | cons x lines => rw [ofLevels, Forest.roots] at roots; cases roots
    subst hlines
    exact .closed hdeep (by rw [List.append_nil, List.nil_append]; exact hi.nodes_eq)
  | @line finished lines deep roots t =>
    refine .closed hdeep ?_
    rw [List.append_assoc, List.singleton_append, Forest.roots_ofLevels_append _ _ _ deep,
      Forest.ofLevels_cons_of_lt hi.deep, List.reverse_cons, roots, hi.nodes_eq, Forest.ofRoots_roots]
    rfl

theorem isEmpty_addBlock (hi : inner.isEmpty = false) (b : Block) : (b.addBlock inner).isEmpty = false := by
  obtain ⟨finished, line⟩ := b
  cases line with
  | some t => rfl
  | none =>
    obtain ⟨nodes, last⟩ := inner
    cases last with
    | some t => rfl
    | none =>
      have hne : nodes ≠ [] := by simpa [isEmpty] using hi
      simp [addBlock, Block.nodes, isEmpty, hne]

theorem isEmpty_of_line (h : b.line.isSome = true) : b.isEmpty = false := by
  rw [isEmpty, ← Option.not_isSome, h, Bool.not_true, Bool.and_false]

end Block

/-! ## Readers -/

namespace Reader

variable {r r' r'' : Reader} {t : Token} {level : Nat} {lines more : List (Nat × Token)}

/-- Some tokens take a reader to another one, none of them refused. -/
def Takes (r : Reader) (ts : List Token) (r' : Reader) : Prop :=
  ∀ index, r.feed index ts = .ok r'

theorem takes_nil (r : Reader) : r.Takes [] r := fun _ => rfl

theorem type_ne_end_of_step (h : r.step? t = some r') : t.type ≠ endType := by
  intro ht
  have hnone : Symbol.ofType? t.type = none := by rw [ht]; rfl
  simp [step?, hnone] at h

theorem takes_cons {ts : List Token} (h : r.step? t = some r') (hts : r'.Takes ts r'') : r.Takes (t :: ts) r'' := by
  intro index
  simp only [feed, if_neg (type_ne_end_of_step h), h]
  exact hts (index + 1)

theorem feed_append (us : List Token) : ∀ (ts : List Token) (r : Reader) (index : Nat),
    r.feed index (ts ++ us) = (r.feed index ts).bind (fun r' => r'.feed (index + ts.length) us)
  | [], _, _ => rfl
  | t :: ts, r, index => by
    rw [List.cons_append, feed, feed]
    by_cases ht : t.type = endType
    · rw [if_pos ht, if_pos ht]
      rfl
    · rw [if_neg ht, if_neg ht]
      cases r.step? t with
      | none => rfl
      | some s =>
        have hindex : index + (t :: ts).length = index + 1 + ts.length := by simp; omega
        rw [hindex]
        exact feed_append us ts s (index + 1)

theorem Takes.append {ts us : List Token} (hts : r.Takes ts r') (hus : r'.Takes us r'') : r.Takes (ts ++ us) r'' := by
  intro index
  rw [feed_append, hts index]
  exact hus _

/-- What the blocks around the innermost one hold, and how many there are.  Each of them is open for the next. -/
inductive Around : List Block → Nat → List (Nat × Token) → Prop where
  | nil : Around [] 0 []
  | cons {b : Block} {outer : List Block} {level : Nat} {lines more : List (Nat × Token)} (h : Around outer level lines)
      (hb : b.Holds level more) (hopen : b.IsOpen) : Around (b :: outer) (level + 1) (lines ++ more)

/-- What a reader holds: the lines read so far, with a number of blocks open. -/
def Holds (r : Reader) (level : Nat) (lines : List (Nat × Token)) : Prop :=
  ∃ before last, Around r.outer level before ∧ r.block.Holds level last ∧ lines = before ++ last

/-- Whether a line break may come next: behind a line, or at the very front. -/
def IsReady (r : Reader) : Prop :=
  r.block.line.isSome = true ∨ r = start

theorem holds_start : start.Holds 0 [] :=
  ⟨[], [], .nil, Block.holds_empty 0, rfl⟩

theorem IsReady.isOpen (h : r.IsReady) : r.block.IsOpen := by
  rcases h with h | rfl
  · exact .inl h
  · exact .inr rfl

theorem IsReady.isEmpty_eq (h : r.IsReady) (hr : r.Holds (level + 1) lines) : r.block.isEmpty = false := by
  rcases h with h | rfl
  · exact Block.isEmpty_of_line h
  · obtain ⟨_, _, ha, -, -⟩ := hr
    cases ha

theorem finish?_eq (h : r.Holds 0 lines) : r.finish? = some (ofLevels lines) := by
  obtain ⟨before, last, ha, hb, rfl⟩ := h
  obtain ⟨block, outer⟩ := r
  cases ha with
  | nil => simp [finish?, hb.forest_eq]

theorem step_newline (h : r.IsReady) (ht : t.type = .name "_NL") : r.step? t = some r := by
  have hs : Symbol.ofType? t.type = some .newline := by rw [ht]; rfl
  have hready : (r.block.line.isSome || (r.outer.isEmpty && r.block.isEmpty)) = true := by
    rcases h with h | rfl
    · rw [h, Bool.true_or]
    · rfl
  simp only [step?, hs, hready, if_true]

theorem step_line (h : r.Holds level lines) (ht : t.type = .name "LINE") :
    ∃ r', r.step? t = some r' ∧ r'.Holds level (lines ++ [(level, t)]) ∧ r'.IsReady := by
  have hs : Symbol.ofType? t.type = some .line := by rw [ht]; rfl
  obtain ⟨before, last, ha, hb, rfl⟩ := h
  refine ⟨{ r with block := r.block.addLine t }, by simp only [step?, hs], ?_, .inl rfl⟩
  exact ⟨before, last ++ [(level, t)], ha, hb.addLine t, List.append_assoc _ _ _⟩

theorem step_indent (h : r.Holds level lines) (hopen : r.block.IsOpen) (ht : t.type = .name "_INDENT") :
    ∃ r', r.step? t = some r' ∧ r'.Holds (level + 1) lines ∧ r'.block.IsOpen := by
  have hs : Symbol.ofType? t.type = some .indent := by rw [ht]; rfl
  have hmay : (r.block.line.isSome || r.block.isEmpty) = true := by
    rcases hopen with h | h <;> rw [h]
    · rfl
    · rw [Bool.or_true]
  obtain ⟨before, last, ha, hb, rfl⟩ := h
  refine ⟨⟨.empty, r.block :: r.outer⟩, by simp only [step?, hs, hmay, if_true], ?_, .inr rfl⟩
  exact ⟨before ++ last, [], ha.cons hb hopen, Block.holds_empty _, (List.append_nil _).symm⟩

theorem step_dedent (h : r.Holds (level + 1) lines) (hne : r.block.isEmpty = false) (ht : t.type = .name "_DEDENT") :
    ∃ r', r.step? t = some r' ∧ r'.Holds level lines ∧ r'.block.isEmpty = false := by
  have hs : Symbol.ofType? t.type = some .dedent := by rw [ht]; rfl
  obtain ⟨block, outer⟩ := r
  obtain ⟨before, last, ha, hb, rfl⟩ := h
  cases ha with
  | @cons around outer level before more ha haround hopen =>
    refine ⟨⟨around.addBlock block, outer⟩, ?_, ?_, Block.isEmpty_addBlock hne around⟩
    · simp only [step?, hs]
      rw [if_neg (by simpa using hne)]
    · exact ⟨before, more ++ last, ha, haround.addBlock hopen hb, List.append_assoc _ _ _⟩

/-! ## Rows of markers -/

theorem takes_newlines (h : r.IsReady) : ∀ ts : List Token, (∀ t ∈ ts, t.type = .name "_NL") → r.Takes ts r
  | [], _ => takes_nil r
  | t :: ts, hts => takes_cons (step_newline h (hts t List.mem_cons_self))
      (takes_newlines h ts fun u hu => hts u (List.mem_cons_of_mem _ hu))

theorem takes_indents : ∀ (ts : List Token) {r : Reader} {level : Nat}, (∀ t ∈ ts, t.type = .name "_INDENT") →
    r.Holds level lines → r.block.IsOpen → ∃ r', r.Takes ts r' ∧ r'.Holds (level + ts.length) lines
  | [], r, _, _, h, _ => ⟨r, takes_nil r, h⟩
  | t :: ts, r, level, hts, h, hopen => by
    obtain ⟨s, hs, hh, ho⟩ := step_indent h hopen (hts t List.mem_cons_self)
    obtain ⟨r', htakes, hh'⟩ := takes_indents ts (fun u hu => hts u (List.mem_cons_of_mem _ hu)) hh ho
    refine ⟨r', takes_cons hs htakes, ?_⟩
    rwa [List.length_cons, Nat.add_comm ts.length, ← Nat.add_assoc]

theorem takes_dedents : ∀ (ts : List Token) {r : Reader} {level : Nat}, (∀ t ∈ ts, t.type = .name "_DEDENT") →
    r.Holds (level + ts.length) lines → (ts ≠ [] → r.block.isEmpty = false) → ∃ r', r.Takes ts r' ∧ r'.Holds level lines
  | [], r, _, _, h, _ => ⟨r, takes_nil r, h⟩
  | t :: ts, r, level, hts, h, hne => by
    have h : r.Holds (level + ts.length + 1) lines := h
    obtain ⟨s, hs, hh, hn⟩ := step_dedent h (hne (List.cons_ne_nil _ _)) (hts t List.mem_cons_self)
    obtain ⟨r', htakes, hh'⟩ := takes_dedents ts (fun u hu => hts u (List.mem_cons_of_mem _ hu)) hh fun _ => hn
    exact ⟨r', takes_cons hs htakes, hh'⟩

end Reader
end Outline
end Offside
