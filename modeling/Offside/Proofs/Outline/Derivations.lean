import Offside.Outline.Grammar
/-!
# Derivations of outlines

The grammar of outlines, read off its rules:

    start: _NL* _block? entry*
    entry: LINE _NL* _block?
    _block: _INDENT _block entry* _DEDENT | _INDENT entry+ _DEDENT

A derivation is a tree of these rules with tokens at its leaves.  Its tokens determine it: no row of tokens is derived
in two ways (`Derivation.tokens_injective`), since every part begins with a token that tells by which rule it is.
-/
namespace Offside
namespace Outline

/-- A token that is a given symbol of the grammar. -/
abbrev Terminal (s : Symbol) := { t : Token // Symbol.ofType? t.type = some s }

/-- What the grammar has a rule for, leaves out or repeats. -/
inductive Part where
  | start
  | entry
  | block
  | below
  | entries

/-- The ways to derive a part of an outline, one constructor for each form of a rule.  Only `below` may be left out,
and only `entries` are any number. -/
inductive Derivation : Part → Type where
  | start (breaks : List (Terminal .newline)) (front : Derivation .below) (rest : Derivation .entries) :
      Derivation .start
  | entry (line : Terminal .line) (breaks : List (Terminal .newline)) (below : Derivation .below) : Derivation .entry
  | nested (opening : Terminal .indent) (inner : Derivation .block) (rest : Derivation .entries)
      (closing : Terminal .dedent) : Derivation .block
  | plain (opening : Terminal .indent) (first : Derivation .entry) (rest : Derivation .entries)
      (closing : Terminal .dedent) : Derivation .block
  | absent : Derivation .below
  | present (block : Derivation .block) : Derivation .below
  | nil : Derivation .entries
  | cons (first : Derivation .entry) (rest : Derivation .entries) : Derivation .entries

namespace Derivation

variable {p : Part}

def terminals {s : Symbol} (ts : List (Terminal s)) : List Token :=
  ts.map Subtype.val

/-- The tokens that a derivation derives. -/
def tokens : {p : Part} → Derivation p → List Token
  | _, .start breaks front rest => terminals breaks ++ front.tokens ++ rest.tokens
  | _, .entry line breaks below => line.1 :: terminals breaks ++ below.tokens
  | _, .nested opening inner rest closing => opening.1 :: inner.tokens ++ rest.tokens ++ [closing.1]
  | _, .plain opening first rest closing => opening.1 :: first.tokens ++ rest.tokens ++ [closing.1]
  | _, .absent => []
  | _, .present block => block.tokens
  | _, .nil => []
  | _, .cons first rest => first.tokens ++ rest.tokens

/-- The entries of a derivation with what is below them.  A block has no node of its own. -/
def nodes : {p : Part} → Derivation p → List (Token × Forest Token)
  | _, .start _ front rest => front.nodes ++ rest.nodes
  | _, .entry line _ below => [(line.1, Forest.ofRoots below.nodes)]
  | _, .nested _ inner rest _ => inner.nodes ++ rest.nodes
  | _, .plain _ first rest _ => first.nodes ++ rest.nodes
  | _, .absent => []
  | _, .present block => block.nodes
  | _, .nil => []
  | _, .cons first rest => first.nodes ++ rest.nodes

def forest (d : Derivation .start) : Forest Token :=
  Forest.ofRoots d.nodes

end Derivation

/-! ## Every text has one derivation at most

A derivation begins with a token that says which rule it is by, so two derivations of the same tokens are the same, rule
by rule.  What may follow a part tells where it ends. -/

/-- Whether some tokens begin with a symbol. -/
def BeginsWith (s : Symbol) (ts : List Token) : Prop :=
  ∃ t ∈ ts.head?, Symbol.ofType? t.type = some s

theorem beginsWith_cons {s : Symbol} (t : Terminal s) (ts : List Token) : BeginsWith s (t.1 :: ts) :=
  ⟨t.1, rfl, t.2⟩

theorem cons_unique {s : Symbol} {t t' : Terminal s} {us us' : List Token} (h : t.1 :: us = t'.1 :: us') :
    t = t' ∧ us = us' := by
  obtain ⟨ht, hus⟩ := List.cons.inj h
  exact ⟨Subtype.ext ht, hus⟩

theorem BeginsWith.unique {s s' : Symbol} {ts : List Token} (h : BeginsWith s ts) (h' : BeginsWith s' ts) : s = s' := by
  obtain ⟨t, ht, hs⟩ := h
  obtain ⟨t', ht', hs'⟩ := h'
  obtain rfl : t = t' := Option.some.inj (ht.symm.trans ht')
  exact Option.some.inj (hs.symm.trans hs')

theorem not_beginsWith_nil (s : Symbol) : ¬ BeginsWith s [] := by
  rintro ⟨t, ⟨⟩, -⟩

namespace Derivation

variable {p : Part}

theorem terminals_append_unique {s : Symbol} {us us' : List Token} (hus : ¬ BeginsWith s us)
    (hus' : ¬ BeginsWith s us') : ∀ {ts ts' : List (Terminal s)}, terminals ts ++ us = terminals ts' ++ us' →
    ts = ts' ∧ us = us'
  | [], [], h => ⟨rfl, h⟩
  | [], t :: ts', h => absurd (show BeginsWith s us by rw [show us = _ from h]; exact beginsWith_cons t _) hus
  | t :: ts, [], h => absurd (show BeginsWith s us' by rw [← show _ = us' from h]; exact beginsWith_cons t _) hus'
  | t :: ts, t' :: ts', h => by
    obtain ⟨rfl, hrest⟩ := cons_unique h
    obtain ⟨rfl, hend⟩ := terminals_append_unique hus hus' hrest
    exact ⟨rfl, hend⟩

/-- Which tokens may stand behind a part, for its end to be known there. -/
def Follows : Part → List Token → Prop
  | .block, _ => True
  | .below, us => ¬ BeginsWith .indent us
  | .entry, us => ¬ BeginsWith .newline us ∧ ¬ BeginsWith .indent us
  | .entries, us | .start, us => ¬ BeginsWith .newline us ∧ ¬ BeginsWith .indent us ∧ ¬ BeginsWith .line us

theorem beginsWith_block (d : Derivation .block) (us : List Token) : BeginsWith .indent (d.tokens ++ us) := by
  cases d with
  | nested opening | plain opening => exact beginsWith_cons opening _

theorem beginsWith_entry (d : Derivation .entry) (us : List Token) : BeginsWith .line (d.tokens ++ us) := by
  cases d with
  | entry line => exact beginsWith_cons line _

theorem not_beginsWith_below {s : Symbol} {us : List Token} (hs : s ≠ .indent) (hus : ¬ BeginsWith s us)
    (d : Derivation .below) : ¬ BeginsWith s (d.tokens ++ us) := by
  cases d with
  | absent => exact hus
  | present block => exact fun h => hs (h.unique (beginsWith_block block us))

theorem not_beginsWith_entries {s : Symbol} {us : List Token} (hs : s ≠ .line) (hus : ¬ BeginsWith s us)
    (d : Derivation .entries) : ¬ BeginsWith s (d.tokens ++ us) := by
  cases d with
  | nil => exact hus
  | cons first rest =>
    intro h
    rw [tokens, List.append_assoc] at h
    exact hs (h.unique (beginsWith_entry first _))

theorem follows_closing (closing : Terminal .dedent) (us : List Token) : Follows .entries (closing.1 :: us) := by
  have hne {s : Symbol} (hs : s ≠ .dedent) : ¬ BeginsWith s (closing.1 :: us) := fun h =>
    hs (h.unique (beginsWith_cons closing us))
  exact ⟨hne (by decide), hne (by decide), hne (by decide)⟩

theorem follows_entry {us : List Token} (hus : Follows .entries us) (d : Derivation .entries) :
    Follows .entry (d.tokens ++ us) :=
  ⟨not_beginsWith_entries (by decide) hus.1 d, not_beginsWith_entries (by decide) hus.2.1 d⟩

/-- **What a derivation derives tells it from every other**, and where it ends as well, if nothing follows that might
belong to it. -/
theorem eq_of_tokens_append (d : Derivation p) : ∀ (d' : Derivation p) {us us' : List Token}, Follows p us →
    Follows p us' → d.tokens ++ us = d'.tokens ++ us' → d = d' ∧ us = us' := by
  induction d with
  | start breaks front rest hfront hrest =>
    rintro (⟨breaks', front', rest'⟩) us us' hus hus' h
    simp only [tokens, List.append_assoc] at h
    have hbreaks {us : List Token} (hus : Follows .start us) (front : Derivation .below) (rest : Derivation .entries) :
        ¬ BeginsWith .newline (front.tokens ++ (rest.tokens ++ us)) :=
      not_beginsWith_below (by decide) (not_beginsWith_entries (by decide) hus.1 rest) front
    obtain ⟨rfl, htail⟩ := terminals_append_unique (hbreaks hus front rest) (hbreaks hus' front' rest') h
    obtain ⟨rfl, hend⟩ := hfront front' (follows_entry hus rest).2 (follows_entry hus' rest').2 htail
    obtain ⟨rfl, rfl⟩ := hrest rest' hus hus' hend
    exact ⟨rfl, rfl⟩
  | entry line breaks below hbelow =>
    rintro (_ | ⟨line', breaks', below'⟩) us us' hus hus' h
    simp only [tokens, List.cons_append, List.append_assoc] at h
    obtain ⟨rfl, htail⟩ := cons_unique h
    obtain ⟨rfl, hend⟩ := terminals_append_unique (not_beginsWith_below (by decide) hus.1 below)
      (not_beginsWith_below (by decide) hus'.1 below') htail
    obtain ⟨rfl, rfl⟩ := hbelow below' hus.2 hus'.2 hend
    exact ⟨rfl, rfl⟩
  | nested opening inner rest closing hinner hrest =>
    intro d' us us' _ _ h
    cases d' with
    | nested opening' inner' rest' closing' =>
      simp only [tokens, List.cons_append, List.append_assoc, List.nil_append] at h
      obtain ⟨rfl, hbody⟩ := cons_unique h
      obtain ⟨rfl, htail⟩ := hinner inner' trivial trivial hbody
      obtain ⟨rfl, hend⟩ := hrest rest' (follows_closing closing us) (follows_closing closing' us') htail
      obtain ⟨rfl, rfl⟩ := cons_unique hend
      exact ⟨rfl, rfl⟩
    | plain opening' first' rest' closing' =>
      simp only [tokens, List.cons_append, List.append_assoc, List.nil_append] at h
      have hindent := beginsWith_block inner (rest.tokens ++ (closing.1 :: us))
      rw [(List.cons.inj h).2] at hindent
      cases hindent.unique (beginsWith_entry first' _)
  | plain opening first rest closing hfirst hrest =>
    intro d' us us' _ _ h
    cases d' with
    | nested opening' inner' rest' closing' =>
      simp only [tokens, List.cons_append, List.append_assoc, List.nil_append] at h
      have hline := beginsWith_entry first (rest.tokens ++ (closing.1 :: us))
      rw [(List.cons.inj h).2] at hline
      cases hline.unique (beginsWith_block inner' _)
    | plain opening' first' rest' closing' =>
      simp only [tokens, List.cons_append, List.append_assoc, List.nil_append] at h
      obtain ⟨rfl, hbody⟩ := cons_unique h
      have hclosed := follows_closing closing us
      have hclosed' := follows_closing closing' us'
      obtain ⟨rfl, htail⟩ := hfirst first' (follows_entry hclosed rest) (follows_entry hclosed' rest') hbody
      obtain ⟨rfl, hend⟩ := hrest rest' hclosed hclosed' htail
      obtain ⟨rfl, rfl⟩ := cons_unique hend
      exact ⟨rfl, rfl⟩
  | absent =>
    intro d' us us' hus _ h
    cases d' with
    | absent => exact ⟨rfl, h⟩
    | present block' =>
      refine absurd (beginsWith_block block' us') ?_
      rw [show block'.tokens ++ us' = us from h.symm]
      exact hus
  | present block hblock =>
    intro d' us us' _ hus' h
    cases d' with
    | absent =>
      refine absurd (beginsWith_block block us) ?_
      rw [show block.tokens ++ us = us' from h]
      exact hus'
    | present block' =>
      obtain ⟨rfl, rfl⟩ := hblock block' trivial trivial h
      exact ⟨rfl, rfl⟩
  | nil =>
    intro d' us us' hus _ h
    cases d' with
    | nil => exact ⟨rfl, h⟩
    | cons first' rest' =>
      refine absurd (beginsWith_entry first' (rest'.tokens ++ us')) ?_
      rw [← List.append_assoc, show first'.tokens ++ rest'.tokens ++ us' = us from h.symm]
      exact hus.2.2
  | cons first rest hfirst hrest =>
    intro d' us us' hus hus' h
    cases d' with
    | nil =>
      refine absurd (beginsWith_entry first (rest.tokens ++ us)) ?_
      rw [← List.append_assoc, show first.tokens ++ rest.tokens ++ us = us' from h]
      exact hus'.2.2
    | cons first' rest' =>
      simp only [tokens, List.append_assoc] at h
      obtain ⟨rfl, htail⟩ := hfirst first' (follows_entry hus rest) (follows_entry hus' rest') h
      obtain ⟨rfl, rfl⟩ := hrest rest' hus hus' htail
      exact ⟨rfl, rfl⟩

theorem tokens_injective {d d' : Derivation .start} (h : d.tokens = d'.tokens) : d = d' := by
  have hnil : Follows .start [] := ⟨not_beginsWith_nil _, not_beginsWith_nil _, not_beginsWith_nil _⟩
  exact (eq_of_tokens_append d d' hnil hnil (by rw [h])).1

end Derivation

end Outline
end Offside
