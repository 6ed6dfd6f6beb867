import Offside.Proofs.Outline.Derivations
import Offside.Proofs.Outline.Reading
/-!
# What the reader accepts

The reader of the grammar takes what a derivation derives, and comes to hold the nodes of the derivation
(`Derivation.isRead`).  Conversely it stands, at any time, behind the beginning of a derivation, which it holds block by
block (`Reader.Stands`), so that all it takes is derived once no block is open any more (`Reader.derivation_iff_takes`).
-/
namespace Offside
namespace Outline

/-! ## Where a reader stops -/

namespace Reader

variable {r r' s : Reader} {ts us : List Token} {t : Token} {index : Nat}

/-- How far behind a token the index stands with which it is refused.  A token of the end's own type is taken for the
end where the outline may end, and then what comes behind it is refused. -/
def overrun (r : Reader) (t : Token) : Nat :=
  if t.type = endType ∧ r.finish?.isSome = true then 1 else 0

theorem feed_refused (h : r.step? t = none) (ts : List Token) (index : Nat) :
    r.feed index (t :: ts) = .error (index + r.overrun t) := by
  unfold feed overrun
  by_cases ht : t.type = endType
  · by_cases hend : r.finish?.isSome = true
    · rw [if_pos ht, if_pos hend, if_pos ⟨ht, hend⟩]
    · rw [if_pos ht, if_neg hend, if_neg fun h => hend h.2]
      rfl
  · rw [if_neg ht, if_neg fun h => ht h.1, h]
    rfl

/-- Tokens are taken, or there is a first that is refused. -/
theorem takes_or_refuses : ∀ (ts : List Token) (r : Reader), (∃ r', r.Takes ts r') ∨
    ∃ front t rest s, ts = front ++ t :: rest ∧ r.Takes front s ∧ s.step? t = none ∧
      ∀ index, r.feed index ts = .error (index + front.length + s.overrun t)
  | [], r => .inl ⟨r, takes_nil r⟩
  | t :: ts, r => by
    cases hs : r.step? t with
    | none => exact .inr ⟨[], t, ts, r, rfl, takes_nil r, hs, feed_refused hs ts⟩
    | some s =>
      rcases takes_or_refuses ts s with ⟨r', hr'⟩ | ⟨front, u, rest, s', rfl, hfront, hu, hfeed⟩
      · exact .inl ⟨r', takes_cons hs hr'⟩
      · refine .inr ⟨t :: front, u, rest, s', rfl, takes_cons hs hfront, hu, fun index => ?_⟩
        rw [feed, if_neg (type_ne_end_of_step hs), hs]
        refine (hfeed (index + 1)).trans (congrArg Except.error ?_)
        rw [List.length_cons]
        omega

theorem takes_of_feed (h : r.feed index ts = .ok r') : r.Takes ts r' := by
  rcases takes_or_refuses ts r with ⟨s, hs⟩ | ⟨_, _, _, _, _, _, _, hfeed⟩
  · obtain rfl := Except.ok.inj ((hs index).symm.trans h)
    exact hs
  · cases (hfeed index).symm.trans h

theorem le_of_feed (h : r.feed 0 ts = .error index) : index ≤ ts.length := by
  rcases takes_or_refuses ts r with ⟨s, hs⟩ | ⟨front, t, rest, s, rfl, _, _, hfeed⟩
  · cases (hs 0).symm.trans h
  · obtain rfl := Except.error.inj ((hfeed 0).symm.trans h)
    have hone : s.overrun t ≤ 1 := by unfold overrun; split <;> omega
    simp only [List.length_append, List.length_cons]
    omega

theorem Takes.unique (h : r.Takes ts s) (h' : r.Takes ts r') : s = r' :=
  Except.ok.inj ((h 0).symm.trans (h' 0))

theorem takes_append_iff : r.Takes (ts ++ us) r' ↔ ∃ s, r.Takes ts s ∧ s.Takes us r' := by
  constructor
  · intro h
    have h₀ := h 0
    rw [feed_append] at h₀
    cases hs : r.feed 0 ts with
    | error index => rw [hs] at h₀; cases h₀
    | ok s =>
      rw [hs] at h₀
      exact ⟨s, takes_of_feed hs, takes_of_feed h₀⟩
  · rintro ⟨s, hts, hus⟩
    exact hts.append hus

theorem takes_cons_iff : r.Takes (t :: ts) r' ↔ ∃ s, r.step? t = some s ∧ s.Takes ts r' := by
  constructor
  · intro h
    cases hs : r.step? t with
    | none => cases (feed_refused hs ts 0).symm.trans (h 0)
    | some s =>
      have h₀ := h 0
      rw [feed, if_neg (type_ne_end_of_step hs), hs] at h₀
      exact ⟨s, rfl, takes_of_feed h₀⟩
  · rintro ⟨s, hs, hts⟩
    exact takes_cons hs hts

end Reader

/-! ## The reader reads what is derived -/

namespace Derivation

theorem nodes_entry_ne_nil (d : Derivation .entry) : d.nodes ≠ [] := by
  cases d
  nofun

theorem nodes_block_ne_nil : ∀ d : Derivation .block, d.nodes ≠ []
  | .nested _ inner _ _, h => inner.nodes_block_ne_nil (List.append_eq_nil_iff.1 h).1
  | .plain _ first _ _, h => first.nodes_entry_ne_nil (List.append_eq_nil_iff.1 h).1

end Derivation

namespace Block

/-- The nodes of a block behind a block inside it that has some nodes. -/
def nodesAbove (b : Block) (nodes : List (Token × Forest Token)) : List (Token × Forest Token) :=
  match b.line with
  | none => nodes.reverse ++ b.finished
  | some t => (t, Forest.ofRoots nodes) :: b.finished

theorem nodesAbove_nil (b : Block) : b.nodesAbove [] = b.nodes := by
  obtain ⟨finished, line⟩ := b
  cases line <;> rfl

theorem nodes_addBlock (b inner : Block) : (b.addBlock inner).nodes = b.nodesAbove inner.nodes.reverse := by
  obtain ⟨finished, line⟩ := b
  cases line with
  | none => simp [addBlock, nodes, nodesAbove]
  | some t => rfl

theorem isEmpty_iff (b : Block) : b.isEmpty = true ↔ b.nodes = [] := by
  obtain ⟨finished, line⟩ := b
  cases line <;> simp [isEmpty, nodes]

end Block

namespace Reader

variable {b : Block} {outer : List Block}

theorem step?_line (t : Terminal .line) : step? ⟨b, outer⟩ t.1 = some ⟨b.addLine t.1, outer⟩ := by
  unfold step?
  rw [t.2]

theorem step?_newline (t : Terminal .newline) (h : b.line.isSome = true ∨ b.isEmpty = true ∧ outer = []) :
    step? ⟨b, outer⟩ t.1 = some ⟨b, outer⟩ := by
  have hready : (b.line.isSome || (outer.isEmpty && b.isEmpty)) = true := by
    rcases h with h | ⟨h, rfl⟩
    · rw [h, Bool.true_or]
    · simp [h]
  unfold step?
  rw [t.2]
  exact if_pos hready

theorem step?_indent (t : Terminal .indent) (h : b.IsOpen) : step? ⟨b, outer⟩ t.1 = some ⟨.empty, b :: outer⟩ := by
  have hopen : (b.line.isSome || b.isEmpty) = true := by
    rcases h with h | h <;> simp [h]
  unfold step?
  rw [t.2]
  exact if_pos hopen

theorem step?_dedent (t : Terminal .dedent) {around : Block} (h : b.nodes ≠ []) :
    step? ⟨b, around :: outer⟩ t.1 = some ⟨around.addBlock b, outer⟩ := by
  have hne : ¬ b.isEmpty = true := fun he => h (b.isEmpty_iff.1 he)
  unfold step?
  rw [t.2]
  exact if_neg hne

theorem takes_breaks (h : b.line.isSome = true ∨ b.isEmpty = true ∧ outer = []) :
    ∀ ts : List (Terminal .newline), Takes ⟨b, outer⟩ (Derivation.terminals ts) ⟨b, outer⟩
  | [] => takes_nil _
  | t :: ts => takes_cons (step?_newline t h) (takes_breaks h ts)

/-- What some tokens make of an empty block joins the block around it, between two markers. -/
theorem takes_block (hopen : b.IsOpen) {inner : Block} {nodes : List (Token × Forest Token)} {ts : List Token}
    (h : Takes ⟨.empty, b :: outer⟩ ts ⟨inner, b :: outer⟩) (hnodes : inner.nodes = nodes.reverse) (hne : nodes ≠ [])
    (opening : Terminal .indent) (closing : Terminal .dedent) :
    ∃ b', Takes ⟨b, outer⟩ (opening.1 :: ts ++ [closing.1]) ⟨b', outer⟩ ∧ b'.nodes = b.nodesAbove nodes := by
  have hinner : inner.nodes ≠ [] := by simpa [hnodes] using hne
  refine ⟨b.addBlock inner, takes_cons (step?_indent opening hopen)
    (h.append (takes_cons (step?_dedent closing hinner) (takes_nil _))), ?_⟩
  rw [Block.nodes_addBlock, hnodes, List.reverse_reverse]

end Reader

/-- What a reader makes of a derived part: a block and what may be left out join an open block, and entries come to
stand behind those of any block. -/
def Derivation.IsRead : {p : Part} → Derivation p → Prop
  | .start, d => ∃ b, Reader.start.Takes d.tokens ⟨b, []⟩ ∧ b.nodes = d.nodes.reverse
  | .block, d | .below, d => ∀ b outer, b.IsOpen →
      ∃ b', Reader.Takes ⟨b, outer⟩ d.tokens ⟨b', outer⟩ ∧ b'.nodes = b.nodesAbove d.nodes
  | .entry, d | .entries, d => ∀ b outer,
      ∃ b', Reader.Takes ⟨b, outer⟩ d.tokens ⟨b', outer⟩ ∧ b'.nodes = d.nodes.reverse ++ b.nodes

open Reader in
/-- The induction is on the derivation, one case for each form of a rule. -/
theorem Derivation.isRead {p : Part} (d : Derivation p) : d.IsRead := by
  have hempty : Block.empty.IsOpen := .inr rfl
  induction d with
  | start breaks front rest hfront hrest =>
    obtain ⟨b, hb, hnodes⟩ := hfront .empty [] hempty
    obtain ⟨b', hb', hnodes'⟩ := hrest b []
    refine ⟨b', ((takes_breaks (.inr ⟨rfl, rfl⟩) breaks).append hb).append hb', ?_⟩
    rw [hnodes', hnodes, nodes, List.reverse_append]
    exact congrArg _ (List.append_nil _)
  | entry line breaks below hbelow =>
    intro b outer
    obtain ⟨b', hb', hnodes⟩ := hbelow (b.addLine line.1) outer (.inl rfl)
    exact ⟨b', takes_cons (step?_line line) ((takes_breaks (.inl rfl) breaks).append hb'), hnodes⟩
  | nested opening inner rest closing hinner hrest =>
    intro b outer hopen
    obtain ⟨b₁, hb₁, hnodes₁⟩ := hinner .empty (b :: outer) hempty
    obtain ⟨b₂, hb₂, hnodes₂⟩ := hrest b₁ (b :: outer)
    have hnodes : b₂.nodes = (inner.nodes ++ rest.nodes).reverse := by
      rw [hnodes₂, hnodes₁, List.reverse_append]
      exact congrArg _ (List.append_nil _)
    exact takes_block hopen (hb₁.append hb₂) hnodes (by simp [nodes_block_ne_nil]) opening closing
  | plain opening first rest closing hfirst hrest =>
    intro b outer hopen
    obtain ⟨b₁, hb₁, hnodes₁⟩ := hfirst .empty (b :: outer)
    obtain ⟨b₂, hb₂, hnodes₂⟩ := hrest b₁ (b :: outer)
    have hnodes : b₂.nodes = (first.nodes ++ rest.nodes).reverse := by
      rw [hnodes₂, hnodes₁, List.reverse_append]
      exact congrArg _ (List.append_nil _)
    exact takes_block hopen (hb₁.append hb₂) hnodes (by simp [nodes_entry_ne_nil]) opening closing
  | absent => exact fun b outer _ => ⟨b, takes_nil _, b.nodesAbove_nil.symm⟩
  | present block hblock => exact hblock
  | nil => exact fun b outer => ⟨b, takes_nil _, rfl⟩
  | cons first rest hfirst hrest =>
    intro b outer
    obtain ⟨b₁, hb₁, hnodes₁⟩ := hfirst b outer
    obtain ⟨b₂, hb₂, hnodes₂⟩ := hrest b₁ outer
    refine ⟨b₂, hb₁.append hb₂, ?_⟩
    rw [hnodes₂, hnodes₁, nodes, List.reverse_append, List.append_assoc]


/-! ## What is read is derived -/

namespace Derivation

def ofEntries : List (Derivation .entry) → Derivation .entries
  | [] => .nil
  | d :: ds => .cons d (ofEntries ds)

theorem tokens_ofEntries : ∀ ds : List (Derivation .entry), (ofEntries ds).tokens = ds.flatMap tokens
  | [] => rfl
  | d :: ds => by rw [ofEntries, tokens, tokens_ofEntries ds, List.flatMap_cons]

theorem nodes_ofEntries : ∀ ds : List (Derivation .entry), (ofEntries ds).nodes = ds.flatMap nodes
  | [] => rfl
  | d :: ds => by rw [ofEntries, nodes, nodes_ofEntries ds, List.flatMap_cons]

end Derivation

/-- A block being read, with the derivations of what is finished in it and with the line that a block may still
follow. -/
structure Begun where
  breaks : List (Terminal .newline)
  front : Derivation .below
  finished : List (Derivation .entry)
  line : Option (Terminal .line × List (Terminal .newline))

namespace Begun

open Offside.Outline.Derivation (terminals)

variable {g : Begun}

/-- The line read last with the line breaks behind it. -/
def lastTokens (g : Begun) : List Token :=
  match g.line with
  | none => []
  | some (line, breaks) => line.1 :: terminals breaks

def tokens (g : Begun) : List Token :=
  terminals g.breaks ++ g.front.tokens ++ g.finished.flatMap Derivation.tokens ++ g.lastTokens

def block (g : Begun) : Block :=
  ⟨(g.front.nodes ++ g.finished.flatMap Derivation.nodes).reverse, g.line.map (·.1.1)⟩

/-- The entries read so far, with nothing below the last line. -/
def entries (g : Begun) : List (Derivation .entry) :=
  match g.line with
  | none => g.finished
  | some (line, breaks) => g.finished ++ [.entry line breaks .absent]

theorem tokens_eq (g : Begun) :
    g.tokens = terminals g.breaks ++ g.front.tokens ++ g.entries.flatMap Derivation.tokens := by
  obtain ⟨breaks, front, finished, line⟩ := g
  rcases line with _ | ⟨line, more⟩
  · simp [tokens, lastTokens, entries]
  · simp [tokens, lastTokens, entries, Derivation.tokens]

theorem nodes_block (g : Begun) : g.block.nodes = (g.front.nodes ++ g.entries.flatMap Derivation.nodes).reverse := by
  obtain ⟨breaks, front, finished, line⟩ := g
  rcases line with _ | ⟨line, more⟩
  · rfl
  · simp [block, Block.nodes, entries, Derivation.nodes, Forest.ofRoots]

/-- Where nothing is finished in a block, it is at its front. -/
theorem front_of_isEmpty (h : g.block.isEmpty = true) : g.front = .absent ∧ g.finished = [] ∧ g.line = none := by
  obtain ⟨breaks, front, finished, line⟩ := g
  simp only [Block.isEmpty, block, Bool.and_eq_true, List.isEmpty_iff, List.reverse_eq_nil_iff, List.append_eq_nil_iff,
    Option.isNone_iff_eq_none, Option.map_eq_none_iff] at h
  obtain ⟨⟨hfront, hfinished⟩, rfl⟩ := h
  refine ⟨?_, ?_, rfl⟩
  · cases front with
    | absent => rfl
    | present block => exact absurd hfront block.nodes_block_ne_nil
  · cases finished with
    | nil => rfl
    | cons first rest => exact absurd (List.append_eq_nil_iff.1 hfinished).1 first.nodes_entry_ne_nil

/-! What may come next in a block, as its reader takes it. -/

def addLine (g : Begun) (t : Terminal .line) : Begun :=
  { g with finished := g.entries, line := some (t, []) }

theorem tokens_addLine (g : Begun) (t : Terminal .line) : (g.addLine t).tokens = g.tokens ++ [t.1] :=
  congrArg (· ++ [t.1]) g.tokens_eq.symm

theorem block_addLine (g : Begun) (t : Terminal .line) : (g.addLine t).block = g.block.addLine t.1 := by
  rw [Block.addLine, nodes_block]
  rfl

/-- A line break joins those behind the line read last, or those at the very front. -/
theorem exists_addBreak (t : Terminal .newline) (h : g.block.line.isSome = true ∨ g.block.isEmpty = true) :
    ∃ g' : Begun, (g.block.line.isSome = true → g'.breaks = g.breaks) ∧ g'.tokens = g.tokens ++ [t.1] ∧
      g'.block = g.block := by
  rcases hline : g.line with _ | ⟨line, more⟩
  · have hnone : ¬ g.block.line.isSome = true := by simp [block, hline]
    obtain ⟨hfront, hfinished, -⟩ := front_of_isEmpty (h.resolve_left hnone)
    refine ⟨{ g with breaks := g.breaks ++ [t] }, fun h => absurd h hnone, ?_, rfl⟩
    simp [tokens, lastTokens, terminals, hfront, hfinished, hline, Derivation.tokens]
  · refine ⟨{ g with line := some (line, more ++ [t]) }, fun _ => rfl, ?_, ?_⟩
    · simp [tokens, lastTokens, terminals, hline]
    · simp [block, hline]

/-- A block that was closed inside another one that may be followed by a block. -/
theorem exists_addBlock (hopen : g.block.IsOpen) (d : Derivation .block) {inner : Block}
    (hinner : inner.nodes = d.nodes.reverse) : ∃ g' : Begun, g'.breaks = g.breaks ∧
    g'.tokens = g.tokens ++ d.tokens ∧ g'.block = g.block.addBlock inner := by
  obtain ⟨breaks, front, finished, line⟩ := g
  rcases line with _ | ⟨line, more⟩
  · have hempty : Block.isEmpty (block ⟨breaks, front, finished, none⟩) = true := hopen.resolve_left (by simp [block])
    obtain ⟨rfl, rfl, -⟩ := front_of_isEmpty hempty
    refine ⟨⟨breaks, .present d, [], none⟩, rfl, ?_, ?_⟩
    · simp [tokens, lastTokens, Derivation.tokens]
    · simp [block, Block.addBlock, Derivation.nodes, hinner]
  · refine ⟨⟨breaks, front, finished ++ [.entry line more (.present d)], none⟩, rfl, ?_, ?_⟩
    · simp [tokens, lastTokens, Derivation.tokens]
    · simp [block, Block.addBlock, Derivation.nodes, hinner]

/-- A block that something was read in is closed. -/
theorem exists_closed (hbreaks : g.breaks = []) (hne : g.block.nodes ≠ []) (opening : Terminal .indent)
    (closing : Terminal .dedent) : ∃ d : Derivation .block, d.tokens = opening.1 :: g.tokens ++ [closing.1] ∧
    g.block.nodes = d.nodes.reverse := by
  rw [nodes_block] at hne
  rw [tokens_eq, nodes_block, hbreaks, Derivation.terminals]
  cases hfront : g.front with
  | present inner =>
    refine ⟨.nested opening inner (.ofEntries g.entries) closing, ?_, ?_⟩
    · simp [Derivation.tokens, Derivation.tokens_ofEntries]
    · simp [Derivation.nodes, Derivation.nodes_ofEntries]
  | absent =>
    cases hentries : g.entries with
    | nil => simp [hfront, hentries, Derivation.nodes] at hne
    | cons first rest =>
      refine ⟨.plain opening first (.ofEntries rest) closing, ?_, ?_⟩
      · simp [Derivation.tokens, Derivation.tokens_ofEntries]
      · simp [Derivation.nodes, Derivation.nodes_ofEntries]

end Begun

namespace Reader

/-- The tokens that a reader stands behind: each of the blocks that are open is begun, and line breaks stand at the
front of the outermost one only. -/
inductive Stands : Reader → List Token → Prop where
  | outermost (g : Begun) : Stands ⟨g.block, []⟩ g.tokens
  | inner {around : Block} {outer : List Block} {ts : List Token} (h : Stands ⟨around, outer⟩ ts)
      (hopen : around.IsOpen) (opening : Terminal .indent) (g : Begun) (hbreaks : g.breaks = []) :
      Stands ⟨g.block, around :: outer⟩ (ts ++ opening.1 :: g.tokens)

variable {r r' : Reader} {ts : List Token} {t : Token}

/-- The innermost block may be exchanged for another one that stands behind more. -/
theorem Stands.exchange (h : Stands r ts) : ∃ g : Begun, r.block = g.block ∧ (r.outer ≠ [] → g.breaks = []) ∧
    ∀ (g' : Begun) (us : List Token), (r.outer ≠ [] → g'.breaks = []) → g'.tokens = g.tokens ++ us →
      Stands ⟨g'.block, r.outer⟩ (ts ++ us) := by
  cases h with
  | outermost g =>
    refine ⟨g, rfl, fun h => absurd rfl h, fun g' us _ hus => ?_⟩
    rw [← hus]
    exact .outermost g'
  | inner h hopen opening g hbreaks =>
    refine ⟨g, rfl, fun _ => hbreaks, fun g' us hbreaks' hus => ?_⟩
    rw [List.append_assoc, List.cons_append, ← hus]
    exact .inner h hopen opening g' (hbreaks' (List.cons_ne_nil _ _))


theorem Stands.step_dedent (h : Stands r ts) (t : Terminal .dedent) (hstep : r.step? t.1 = some r') :
    Stands r' (ts ++ [t.1]) := by
  cases h with
  | outermost g => simp [step?, t.2] at hstep
  | @inner around outer before h hopen opening g hbreaks =>
    simp only [step?, t.2, Option.ite_none_left_eq_some, Option.some.injEq] at hstep
    obtain ⟨hne, rfl⟩ := hstep
    obtain ⟨d, hd, hnodes⟩ := g.exists_closed hbreaks (fun h => hne (g.block.isEmpty_iff.2 h)) opening t
    obtain ⟨a, haround : around = a.block, habreaks, hexchange⟩ := h.exchange
    subst haround
    obtain ⟨a', hkept, htokens, hblock⟩ := a.exists_addBlock hopen d hnodes
    rw [← hblock, List.append_assoc, ← hd]
    exact hexchange a' d.tokens (fun houter => hkept.trans (habreaks houter)) htokens

/-- **A token that is taken leads on in the derivation.** -/
theorem Stands.step (h : Stands r ts) (hstep : r.step? t = some r') : Stands r' (ts ++ [t]) := by
  obtain ⟨b, outer⟩ := r
  obtain ⟨g, hb : b = g.block, hbreaks, hexchange⟩ := h.exchange
  cases hs : Symbol.ofType? t.type with
  | none => simp [step?, hs] at hstep
  | some s =>
    cases s with
    | line =>
      obtain rfl := Option.some.inj ((step?_line ⟨t, hs⟩).symm.trans hstep)
      rw [hb, ← g.block_addLine ⟨t, hs⟩]
      exact hexchange _ _ hbreaks (g.tokens_addLine ⟨t, hs⟩)
    | newline =>
      simp only [step?, hs, Option.ite_none_right_eq_some, Option.some.injEq, Bool.or_eq_true, Bool.and_eq_true,
        List.isEmpty_iff] at hstep
      obtain ⟨hready, rfl⟩ := hstep
      rw [hb] at hready ⊢
      obtain ⟨g', hkept, htokens, hblock⟩ := g.exists_addBreak ⟨t, hs⟩ (hready.imp_right And.right)
      rw [← hblock]
      refine hexchange g' [t] (fun houter => ?_) htokens
      rw [hkept (hready.resolve_right fun h => houter h.1), hbreaks houter]
    | indent =>
      simp only [step?, hs, Option.ite_none_right_eq_some, Option.some.injEq, Bool.or_eq_true] at hstep
      obtain ⟨hopen, rfl⟩ := hstep
      exact .inner h hopen ⟨t, hs⟩ ⟨[], .absent, [], none⟩ rfl
    | dedent => exact h.step_dedent ⟨t, hs⟩ hstep

theorem stands_start : Stands start [] :=
  .outermost ⟨[], .absent, [], none⟩

theorem Stands.takes : ∀ {us ts : List Token} {r : Reader}, Stands r ts → r.Takes us r' → Stands r' (ts ++ us)
  | [], ts, r, h, hus => by
    obtain rfl := hus.unique (takes_nil r)
    rwa [List.append_nil]
  | t :: us, ts, r, h, hus => by
    obtain ⟨s, hs, hrest⟩ := takes_cons_iff.1 hus
    have hall := (h.step hs).takes hrest
    rwa [List.append_assoc] at hall

theorem finish?_eq_some_iff {r : Reader} {f : Forest Token} : r.finish? = some f ↔ r.outer = [] ∧ r.block.forest = f := by
  simp [finish?]

/-- **The reader reads what is derived, and nothing else.** -/
theorem derivation_iff_takes (ts : List Token) (f : Forest Token) :
    (∃ d : Derivation .start, d.tokens = ts ∧ d.forest = f) ↔ ∃ r, start.Takes ts r ∧ r.finish? = some f := by
  constructor
  · rintro ⟨d, rfl, rfl⟩
    obtain ⟨b, hb, hnodes⟩ := d.isRead
    refine ⟨⟨b, []⟩, hb, finish?_eq_some_iff.2 ⟨rfl, ?_⟩⟩
    rw [Block.forest, hnodes, List.reverse_reverse, Derivation.forest]
  · rintro ⟨⟨b, outer⟩, htakes, hend⟩
    obtain ⟨rfl, rfl⟩ : outer = [] ∧ b.forest = f := finish?_eq_some_iff.1 hend
    have hstands := stands_start.takes htakes
    rw [List.nil_append] at hstands
    cases hstands with
    | outermost g =>
      refine ⟨.start g.breaks g.front (.ofEntries g.entries), ?_, ?_⟩
      · rw [Derivation.tokens, Derivation.tokens_ofEntries, g.tokens_eq]
      · rw [Block.forest, g.nodes_block, List.reverse_reverse, Derivation.forest, Derivation.nodes,
          Derivation.nodes_ofEntries]

end Reader
end Outline
end Offside
