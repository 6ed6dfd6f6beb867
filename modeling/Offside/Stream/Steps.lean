import Offside.Stream
/-!
# Following a stream

`Stream.steps` follows a stream up to its first reply that is not a token, and `Stream.drain` sums the steps up.  This
ends, because every token of a stream takes a reply from the source, or else something that is held: a token from the
buffer, or an open level (`Stream.next_token`).
-/
namespace Offside
namespace Stream

/-- How much a stream can give without asking its source: the tokens held back and the levels to close. -/
def held (s : Stream) : Nat :=
  s.levels.depth + s.buffer.length

@[simp]
theorem rest_emit (s : Stream) (rest : Source) (notes : List Note) : (s.emit rest notes).rest = rest := by
  unfold emit
  split <;> rfl

@[simp]
theorem rest_close (s : Stream) (rest : Source) : (s.close rest).rest = rest :=
  rest_emit _ _ _

@[simp]
theorem rest_settle (s : Stream) (cfg : Config) (newline : Token) (scan : LineScan Token) (rest : Source) :
    (s.settle cfg newline scan rest).rest = rest := by
  unfold settle
  dsimp only
  split <;> simp

theorem held_emit {s : Stream} {rest : Source} {notes : List Note} {t : Token}
    (h : (s.emit rest notes).reply = .token t) : (s.emit rest notes).stream.held < s.held := by
  unfold emit at h ⊢
  cases hb : s.buffer with
  | nil => rw [hb] at h; cases h
  | cons x buffer => simp [held, hb]

theorem held_close {s : Stream} {rest : Source} {t : Token} (hb : s.buffer = [])
    (h : (s.close rest).reply = .token t) : (s.close rest).stream.held < s.held := by
  refine Nat.lt_of_lt_of_le (held_emit h) (Nat.le_of_eq ?_)
  simp [held, Levels.closeAll, Ledger.drain, Levels.depth, Ledger.depth, Ledger.empty, hb]

/-- What a request leaves of the source is a part of it. -/
theorem rest_next_suffix (s : Stream) (source : Source) : (s.next source).rest <:+ source := by
  unfold next pull
  repeat' split
  all_goals simp only [rest_close, rest_settle, List.suffix_refl, List.suffix_cons]
  · rename_i hs
    exact ((hs ▸ rest_scanLine_suffix _ _ _ : (ScanResult.broken _ _).rest <:+ _)).trans (List.suffix_cons _ _)
  · rename_i hs
    exact ((hs ▸ rest_scanLine_suffix _ _ _ : (ScanResult.found _ _ _).rest <:+ _)).trans (List.suffix_cons _ _)

theorem pull_exhausted {s : Stream} (h : s.exhausted = true) (cfg : Config) (source : Source) :
    s.pull cfg source = s.close source := by
  simp [pull, h]

theorem pull_nil {s : Stream} (h : s.exhausted = false) (cfg : Config) :
    s.pull cfg [] = { s with exhausted := true }.close [] := by
  simp [pull, h]

theorem pull_done {s : Stream} (h : s.exhausted = false) (cfg : Config) (rest : Source) :
    s.pull cfg (.done :: rest) = { s with exhausted := true }.close rest := by
  simp [pull, h]

theorem pull_gap {s : Stream} (h : s.exhausted = false) (cfg : Config) (rest : Source) :
    s.pull cfg (.gap :: rest) = s.close rest := by
  simp [pull, h]

theorem pull_fault {s : Stream} (h : s.exhausted = false) (cfg : Config) (f : Fault) (rest : Source) :
    s.pull cfg (.fault f :: rest) = ⟨.fault f, s, rest, []⟩ := by
  simp [pull, h]

section
variable {s : Stream} {cfg : Config} {t : Token}

/-- At a line break the stream scans on. -/
theorem pull_newline (h : s.exhausted = false) (ht : cfg.classify t = .newline) (source : Source) :
    s.pull cfg (.token t :: source) =
      match scanLine cfg t source with
      | .broken f rest => ⟨.fault f, s, rest, []⟩
      | .found scan ended rest => { s with exhausted := ended }.settle cfg t scan rest := by
  have hk : cfg.classOf t = .ok .newline := Config.classOf_of_gap ht (by intro h; cases h)
  cases hs : scanLine cfg t source <;> simp only [pull, h, Bool.false_eq_true, if_false, hk, hs]

/-- Any other token is passed on, -/
theorem pull_passed (h : s.exhausted = false) (ht : cfg.classify t ≠ .newline) (hk : cfg.knows t = true)
    (source : Source) : s.pull cfg (.token t :: source) = ⟨.token t, s, source, []⟩ := by
  simp only [pull, h, Bool.false_eq_true, if_false, Config.classOf_of_knows hk]

/-- unless it cannot be told what it is. -/
theorem pull_unknown (h : s.exhausted = false) {e : KindError} (ht : cfg.classOf t = .error e) (source : Source) :
    s.pull cfg (.token t :: source) = ⟨.fault (.kind e), s, source, []⟩ := by
  simp only [pull, h, Bool.false_eq_true, if_false, ht]

end

theorem length_rest_pull {s : Stream} (h : s.exhausted = false) (cfg : Config) (r : Reply) (rest : Source) :
    (s.pull cfg (r :: rest)).rest.length ≤ rest.length := by
  cases r with
  | done => simp [pull, h]
  | gap => simp [pull, h]
  | fault f => simp [pull, h]
  | token u =>
    have hs := (rest_scanLine_suffix cfg u rest).length_le
    simp only [pull, h, Bool.false_eq_true, if_false]
    cases cfg.classOf u with
    | error e => simp
    | ok c =>
      cases c with
      | newline => cases hr : scanLine cfg u rest <;> rw [hr] at hs <;> simpa [ScanResult.rest] using hs
      | whitespace => simp
      | other => simp

theorem pull_token {s : Stream} {cfg : Config} {source : Source} {t : Token} (hb : s.buffer = [])
    (h : (s.pull cfg source).reply = .token t) :
    (s.pull cfg source).rest.length < source.length ∨
      (s.pull cfg source).rest.length = source.length ∧ (s.pull cfg source).stream.held < s.held := by
  cases hx : s.exhausted with
  | true =>
    rw [pull_exhausted hx] at h ⊢
    exact .inr ⟨by simp, held_close hb h⟩
  | false =>
    cases source with
    | nil =>
      rw [pull_nil hx] at h ⊢
      exact .inr ⟨by simp, held_close (s := { s with exhausted := true }) hb h⟩
    | cons r rest => exact .inl (Nat.lt_succ_of_le (length_rest_pull hx cfg r rest))

/-- A request that gives a token takes a reply from the source, or less is held afterwards. -/
theorem next_token {s : Stream} {source : Source} {t : Token} (h : (s.next source).reply = .token t) :
    (s.next source).rest.length < source.length ∨
      (s.next source).rest.length = source.length ∧ (s.next source).stream.held < s.held := by
  unfold next at h ⊢
  cases hc : s.config with
  | none => rw [hc] at h; cases h
  | some cfg =>
    cases he : s.stopped with
    | some e => rw [hc, he] at h; cases h
    | none =>
      cases hb : s.buffer with
      | cons u buffer => exact .inr ⟨rfl, by simp [held, hb]⟩
      | nil =>
        rw [hc, he, hb] at h
        exact pull_token hb h

/-- The steps of a stream up to the first whose reply is no token. -/
def steps (s : Stream) (source : Source) : List Step :=
  match _h : (s.next source).reply with
  | .token _ => s.next source :: (s.next source).stream.steps (s.next source).rest
  | _ => [s.next source]
termination_by (source.length, s.held)
decreasing_by
  rcases next_token (by assumption) with hl | ⟨hl, hh⟩
  · exact .left _ _ hl
  · rw [hl]; exact .right _ hh

theorem steps_of_token {s : Stream} {source : Source} {t : Token} (h : (s.next source).reply = .token t) :
    s.steps source = s.next source :: (s.next source).stream.steps (s.next source).rest := by
  rw [steps]
  split
  · rfl
  · rename_i hn
    exact absurd h (hn t)

theorem steps_of_not_token {s : Stream} {source : Source} (h : ∀ t, (s.next source).reply ≠ .token t) :
    s.steps source = [s.next source] := by
  rw [steps]
  split
  · rename_i ht
    exact absurd ht (h _)
  · rfl

theorem steps_ne_nil (s : Stream) (source : Source) : s.steps source ≠ [] := by
  rw [steps]
  split <;> simp

end Stream

/-! ## Draining -/

/-- What a stream gives when it is asked until it stops giving tokens: the tokens, the fault if that ended it, what is
left of the stream and of its source, and the notes on the way. -/
structure Drained where
  tokens : List Token
  fault : Option Fault
  stream : Stream
  rest : Source
  notes : List Note

def Reply.token? : Reply → Option Token
  | .token t => some t
  | _ => none

def Reply.fault? : Reply → Option Fault
  | .fault f => some f
  | _ => none

def Stream.drain (s : Stream) (source : Source) : Drained :=
  let steps := s.steps source
  let last := steps.getLast?
  { tokens := steps.filterMap (fun step => step.reply.token?)
    fault := last.bind (fun step => step.reply.fault?)
    stream := (last.map Step.stream).getD s
    rest := (last.map Step.rest).getD source
    notes := steps.flatMap Step.notes }

/-- The tokens of a stream that ends without a fault. -/
def Drained.toExcept (d : Drained) : Except Fault (List Token) :=
  match d.fault with
  | none => .ok d.tokens
  | some f => .error f

end Offside
