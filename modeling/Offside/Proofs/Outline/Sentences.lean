import Offside.Outline.Document
import Offside.Proofs.Outline.Acceptance
/-!
# Sentences of the outline grammar

Parsing a row of tokens, whatever their types are (`parseTokens_by_grammar`).  A row that the grammar derives is parsed
into the outline of its derivation.  Any other is refused where the longest part at its front ends that can be led on to
a sentence, with two things to know: a token of the end's own type counts as the end, and one whose type cannot be
looked up is a fault in its place.
-/
namespace Offside
namespace Outline

/-- A text that the grammar derives. -/
def IsSentence (ts : List Token) : Prop :=
  ∃ d : Derivation .start, d.tokens = ts

/-- A text that can be led on to a sentence. -/
def IsViable (ts : List Token) : Prop :=
  ∃ us, IsSentence (ts ++ us)

/-- How many tokens at the front of a text can be led on to a sentence at most. -/
def IsLongestViable (ts : List Token) (count : Nat) : Prop :=
  count ≤ ts.length ∧ IsViable (ts.take count) ∧ ∀ k ≤ ts.length, IsViable (ts.take k) → k ≤ count

def Symbol.type : Symbol → TokenType
  | .line => .name "LINE"
  | .newline => .name "_NL"
  | .indent => .name "_INDENT"
  | .dedent => .name "_DEDENT"

theorem Symbol.ofType?_type (s : Symbol) : ofType? s.type = some s := by
  cases s <;> rfl

instance (s : Symbol) : Inhabited (Terminal s) :=
  ⟨⟨.markerAt s.type .null ⟨.null, .null, .null⟩, s.ofType?_type⟩⟩

namespace Reader

variable {ts : List Token}

/-- A line in each block that is open, and its end: every text that is read so far can be led on to a sentence. -/
theorem exists_takes_end : ∀ (outer : List Block) (b : Block), ∃ us b', Takes ⟨b, outer⟩ us ⟨b', []⟩
  | [], b => ⟨[], b, takes_nil _⟩
  | around :: outer, b => by
    let line : Terminal .line := default
    let closing : Terminal .dedent := default
    obtain ⟨us, b', h⟩ := exists_takes_end outer (around.addBlock (b.addLine line.1))
    exact ⟨line.1 :: closing.1 :: us, b', takes_cons (step?_line line)
      (takes_cons (step?_dedent closing (List.cons_ne_nil _ _)) h)⟩

theorem isSentence_iff : IsSentence ts ↔ ∃ r, start.Takes ts r ∧ r.finish?.isSome = true := by
  constructor
  · rintro ⟨d, hd⟩
    obtain ⟨r, hr, hend⟩ := (derivation_iff_takes ts _).1 ⟨d, hd, rfl⟩
    exact ⟨r, hr, by rw [hend]; rfl⟩
  · rintro ⟨r, hr, hend⟩
    obtain ⟨f, hf⟩ := Option.isSome_iff_exists.1 hend
    obtain ⟨d, hd, -⟩ := (derivation_iff_takes ts f).2 ⟨r, hr, hf⟩
    exact ⟨d, hd⟩

theorem isViable_iff : IsViable ts ↔ ∃ r, start.Takes ts r := by
  constructor
  · rintro ⟨us, hus⟩
    obtain ⟨r, hr, -⟩ := isSentence_iff.1 hus
    obtain ⟨s, hs, -⟩ := takes_append_iff.1 hr
    exact ⟨s, hs⟩
  · rintro ⟨⟨b, outer⟩, hr⟩
    obtain ⟨us, b', hus⟩ := exists_takes_end outer b
    exact ⟨us, isSentence_iff.2 ⟨⟨b', []⟩, hr.append hus, rfl⟩⟩

end Reader

/-! ## Parsing rows of tokens -/

/-- The failure of a parse that stops at an index: a type that cannot be looked up among the symbols is a fault in the
place of its token. -/
def refusal (ts : List Token) (index : Nat) : Failure :=
  match ts[index]? with
  | none => .unexpected index
  | some t => if t.type.isSingle = true then .unexpected index else .fault (.kind (.notSingle t.type.toDatum.kind))

theorem refusal_of_isSingle {ts : List Token} {index : Nat} (h : ∀ t ∈ ts[index]?, t.type.isSingle = true) :
    refusal ts index = .unexpected index := by
  unfold refusal
  cases ht : ts[index]? with
  | none => rfl
  | some t => exact if_pos (h t ht)

theorem step?_of_not_isSingle {t : Token} (h : ¬ t.type.isSingle = true) (r : Reader) : r.step? t = none := by
  have hname : ∀ s, t.type ≠ .name s := by
    intro s hs
    rw [hs] at h
    exact h rfl
  simp [Reader.step?, Symbol.ofType?, hname]

theorem read_none (ts : List Token) : read ts none =
    match Reader.start.feed 0 ts with
    | .error index => .error (.unexpected index)
    | .ok r =>
      match r.finish? with
      | some f => .ok f
      | none => .error (.unexpected ts.length) := by
  unfold read
  cases Reader.start.feed 0 ts <;> rfl

theorem parseTokens_of_isSingle {ts : List Token} (h : ∀ t ∈ ts, t.type.isSingle = true) :
    parseTokens ts = read ts none := by
  have hrest : ts.dropWhile (fun t => t.type.isSingle) = [] := List.dropWhile_eq_nil_iff.2 h
  simp only [parseTokens, hrest]

theorem parseTokens_append {front : List Token} (h : ∀ t ∈ front, t.type.isSingle = true) {t : Token}
    (ht : ¬ t.type.isSingle = true) (rest : List Token) : parseTokens (front ++ t :: rest) =
    read front (some (.kind (.notSingle t.type.toDatum.kind))) := by
  have hdrop : (front ++ t :: rest).dropWhile (fun t => t.type.isSingle) = t :: rest := by
    rw [List.dropWhile_append_of_pos h, List.dropWhile_cons_of_neg (a := t) ht]
  have htake : (front ++ t :: rest).takeWhile (fun t => t.type.isSingle) = front := by
    rw [List.takeWhile_append_of_pos h, List.takeWhile_cons_of_neg (a := t) ht, List.append_nil]
  simp only [parseTokens, hdrop, htake]

/-- A token that cannot be looked up ends the tokens with a fault, just where the reader refuses it. -/
theorem parseTokens_eq (ts : List Token) : parseTokens ts =
    match Reader.start.feed 0 ts with
    | .error index => .error (refusal ts index)
    | .ok r =>
      match r.finish? with
      | some f => .ok f
      | none => .error (refusal ts ts.length) := by
  cases hfind : ts.find? (fun t => !t.type.isSingle) with
  | none =>
    have hall : ∀ t ∈ ts, t.type.isSingle = true := by simpa using hfind
    have hrefusal (index : Nat) : refusal ts index = .unexpected index :=
      refusal_of_isSingle fun t ht => hall t (List.mem_of_getElem? ht)
    simp only [parseTokens_of_isSingle hall, hrefusal]
    exact read_none ts
  | some t =>
    obtain ⟨ht, front, rest, rfl, hfront⟩ := List.find?_eq_some_iff_append.1 hfind
    have ht : ¬ t.type.isSingle = true := by simpa using ht
    have hfront : ∀ u ∈ front, u.type.isSingle = true := by simpa using hfront
    have hat : refusal (front ++ t :: rest) front.length = .fault (.kind (.notSingle t.type.toDatum.kind)) := by
      simp [refusal, ht]
    rw [parseTokens_append hfront ht, Reader.feed_append]
    unfold read
    cases hfeed : Reader.start.feed 0 front with
    | ok r =>
      have hover : r.overrun t = 0 := if_neg fun h => ht (by rw [h.1]; rfl)
      simp [Except.bind, Reader.feed_refused (step?_of_not_isSingle ht r), hover, hat]
    | error index =>
      have hle := Reader.le_of_feed hfeed
      simp only [Except.bind]
      by_cases hlt : index < front.length
      · rw [if_pos hlt, refusal_of_isSingle fun u hu => ?_]
        rw [List.getElem?_append_left hlt] at hu
        exact hfront u (List.mem_of_getElem? hu)
      · rw [if_neg hlt, show index = front.length by omega, hat]

/-- Whether a text has a token of the end's own type where a sentence may end. -/
def EndsAt (ts : List Token) (index : Nat) : Prop :=
  (∃ t ∈ ts[index]?, t.type = endType) ∧ IsSentence (ts.take index)

theorem parseTokens_eq_ok_iff (ts : List Token) (f : Forest Token) :
    parseTokens ts = .ok f ↔ ∃ d : Derivation .start, d.tokens = ts ∧ d.forest = f := by
  rw [Reader.derivation_iff_takes, parseTokens_eq]
  constructor
  · intro h
    split at h
    · cases h
    · rename_i r hfeed
      split at h
      · rename_i g hend
        obtain rfl := Except.ok.inj h
        exact ⟨r, Reader.takes_of_feed hfeed, hend⟩
      · cases h
  · rintro ⟨r, htakes, hend⟩
    simp only [htakes 0, hend]

/-- The tokens in front of one that is refused can be led on, and no more than these. -/
theorem isLongestViable_of_refused {front rest : List Token} {t : Token} {s : Reader}
    (hfront : Reader.start.Takes front s) (ht : s.step? t = none) :
    IsLongestViable (front ++ t :: rest) front.length := by
  refine ⟨by simp, ?_, fun k _ hk => ?_⟩
  · rw [List.take_left]
    exact Reader.isViable_iff.2 ⟨s, hfront⟩
  · by_contra hlt
    obtain ⟨r, hr⟩ := Reader.isViable_iff.1 hk
    obtain ⟨more, hmore⟩ : ∃ more, k - front.length = more + 1 := ⟨k - front.length - 1, by omega⟩
    rw [List.take_append, List.take_of_length_le (by omega), hmore, List.take_succ_cons, Reader.takes_append_iff] at hr
    obtain ⟨s', hs', hrest⟩ := hr
    obtain rfl := hs'.unique hfront
    obtain ⟨r', hr', -⟩ := Reader.takes_cons_iff.1 hrest
    cases ht.symm.trans hr'

theorem parseTokens_of_not_isSentence {ts : List Token} (h : ¬ IsSentence ts) : ∃ i, IsLongestViable ts i ∧
    (EndsAt ts i → parseTokens ts = .error (refusal ts (i + 1))) ∧
    (¬ EndsAt ts i → parseTokens ts = .error (refusal ts i)) := by
  rw [parseTokens_eq]
  rcases Reader.takes_or_refuses ts .start with ⟨r, hr⟩ | ⟨front, t, rest, s, rfl, hfront, ht, hfeed⟩
  · have hviable : IsViable ts := Reader.isViable_iff.2 ⟨r, hr⟩
    have hend : r.finish? = none := by
      rw [← Option.not_isSome_iff_eq_none]
      exact fun hend => h (Reader.isSentence_iff.2 ⟨r, hr, hend⟩)
    refine ⟨ts.length, ⟨Nat.le_refl _, by rwa [List.take_length], fun _ hk _ => hk⟩, ?_, ?_⟩
    · rintro ⟨⟨t, ht, -⟩, -⟩
      simp at ht
    · intro _
      simp only [hr 0, hend]
  · have hends : EndsAt (front ++ t :: rest) front.length ↔ t.type = endType ∧ s.finish?.isSome = true := by
      have hat : (front ++ t :: rest)[front.length]? = some t := by simp
      unfold EndsAt
      rw [hat, List.take_left, Reader.isSentence_iff]
      constructor
      · rintro ⟨⟨u, hu, hend⟩, s', hs', hfinish⟩
        obtain rfl := Option.some.inj hu
        obtain rfl := hs'.unique hfront
        exact ⟨hend, hfinish⟩
      · rintro ⟨hend, hfinish⟩
        exact ⟨⟨t, rfl, hend⟩, s, hfront, hfinish⟩
    simp only [hfeed 0, Nat.zero_add]
    refine ⟨front.length, isLongestViable_of_refused hfront ht, fun h => ?_, fun h => ?_⟩
    · rw [Reader.overrun, if_pos (hends.1 h)]
    · rw [Reader.overrun, if_neg fun h' => h (hends.2 h')]
      rfl

/-- **A row of tokens parses just when the grammar derives it**, into the outline of its only derivation; otherwise it
fails where its longest part ends that can be led on to a sentence.  A token of the end's own type counts as the end
where a sentence may end, and what comes behind it is one too many. -/
theorem parseTokens_by_grammar (ts : List Token) :
    (∀ f, parseTokens ts = .ok f ↔ ∃ d : Derivation .start, d.tokens = ts ∧ d.forest = f) ∧
    (∀ d d' : Derivation .start, d.tokens = ts → d'.tokens = ts → d = d') ∧
    (¬ IsSentence ts → ∃ i, IsLongestViable ts i ∧ (EndsAt ts i → parseTokens ts = .error (refusal ts (i + 1))) ∧
      (¬ EndsAt ts i → parseTokens ts = .error (refusal ts i))) :=
  ⟨parseTokens_eq_ok_iff ts, fun _ _ h h' => Derivation.tokens_injective (h.trans h'.symm),
    parseTokens_of_not_isSentence⟩

/-- A row of one token, which is of the end's own type. -/
def endOnly : List Token :=
  [.markerAt endType .null ⟨.null, .null, .null⟩]

theorem endOnly_refused_late : ¬ IsSentence endOnly ∧ parseTokens endOnly = .error (.unexpected 1) ∧
    IsLongestViable endOnly 0 ∧ ¬ IsLongestViable endOnly 1 := by
  have hrefused : Reader.start.step? (.markerAt endType .null ⟨.null, .null, .null⟩) = none := rfl
  have hviable : ¬ IsViable endOnly := by
    intro h
    obtain ⟨r, hr⟩ := Reader.isViable_iff.1 h
    obtain ⟨s, hs, -⟩ := Reader.takes_cons_iff.1 hr
    cases hrefused.symm.trans hs
  refine ⟨fun h => hviable ⟨[], ?_⟩, rfl, ?_, fun h => hviable h.2.1⟩
  · rwa [List.append_nil]
  · exact isLongestViable_of_refused (Reader.takes_nil _) hrefused

end Outline
end Offside
