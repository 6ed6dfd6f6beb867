import Offside.Levels
/-!
# What an indentation does to the open levels

Whatever is measured, and whatever stands behind it, one of three things happens to the levels (`Moved`): some of the
deepest are closed, some are opened at once, or nothing but the unit changes and there is a fault.  The last is the
delicate one, for levels are opened one by one and an opening may fail.  It fails at the first level or never, unless
the column is a fraction (`openEach_moved`): adding a whole number to a fraction can be refused for its size, and the
indentation of a level grows with the level.
-/
namespace Offside

/-- A token of a source that counts its columns: no marker, and its column is no fraction. -/
structure Token.IsRaw (t : Token) : Prop where
  unmarked : t.isMarker = false
  column_ne_real : ∀ x : Float, t.start.column ≠ .real x

/-- A token of one line of a text, of which only the column is known. -/
def Token.inColumn (type value : String) (column : Int) : Token :=
  { type := .name type
    value
    start := ⟨.null, .null, .int column⟩
    stop := ⟨.null, .null, .null⟩
    level := none }

theorem Token.isRaw_inColumn (type value : String) (column : Int) : (Token.inColumn type value column).IsRaw :=
  ⟨rfl, nofun⟩

/-- The marker that closes the level that a marker opens. -/
def Kinds.closing (kinds : Kinds) (opening : Token) : Token :=
  { opening with type := kinds.dedent }

@[simp]
theorem Kinds.level_closing (kinds : Kinds) (opening : Token) : (kinds.closing opening).level = opening.level := rfl

theorem Kinds.indent_ne_dedent (kinds : Kinds) : kinds.indent ≠ kinds.dedent :=
  fun h => kinds.distinct.1 (congrArg TokenType.key h)

/-- Markers that open one level after another, from a depth on. -/
inductive Opens (kinds : Kinds) : Nat → List Token → Prop where
  | nil {depth : Nat} : Opens kinds depth []
  | cons {depth : Nat} {m : Token} {ms : List Token} (ht : m.type = kinds.indent) (hl : m.level = some (.int depth))
      (hms : Opens kinds (depth + 1) ms) : Opens kinds depth (m :: ms)

theorem Opens.isMarker {kinds : Kinds} {depth : Nat} {ms : List Token} (h : Opens kinds depth ms) :
    ∀ m ∈ ms, m.isMarker = true := by
  induction h with
  | nil => simp
  | cons _ hl _ ih => simpa [Token.isMarker, hl] using ih

namespace Levels

/-- Everything that an indentation can do to the open levels. -/
inductive Moved (kinds : Kinds) (s : Levels) : Except Fault (List Token) × Levels → Prop where
  | closed (unit : Datum) (count : Nat) :
      Moved kinds s (.ok (s.ledger.pending.take count), ⟨unit, ⟨s.ledger.pending.drop count⟩⟩)
  | opened (unit : Datum) {ms : List Token} (hms : Opens kinds s.depth ms) :
      Moved kinds s (.ok ms, ⟨unit, ⟨(ms.map kinds.closing).reverse ++ s.ledger.pending⟩⟩)
  | failed (unit : Datum) (f : Fault) : Moved kinds s (.error f, ⟨unit, s.ledger⟩)

theorem Moved.of_unit {kinds : Kinds} {s : Levels} {unit : Datum} {o : Except Fault (List Token) × Levels}
    (h : Moved kinds { s with unit } o) : Moved kinds s o := by
  cases h with
  | closed unit count => exact .closed unit count
  | opened unit hms => exact .opened unit hms
  | failed unit f => exact .failed unit f

/-! ## Opening -/

/-- At a column that is no fraction, with a whole unit, there is a marker for every level or for none. -/
theorem marker_all_or_none {t : Token} (ht : ∀ x : Float, t.start.column ≠ .real x) {unit : Datum} {n : Int}
    (hu : unit.number? = some (.whole n)) (type : TokenType) :
    (∀ level : Int, ∃ place, Token.marker type (.int level) t unit = .ok (Token.markerAt type (.int level) place)) ∨
      ∀ level : Int, ∃ e, Token.marker type (.int level) t unit = .error e := by
  have htimes (level : Int) : (Datum.int level).times unit = .ok (.int (level * n)) := by
    rw [Datum.times, hu]
    rfl
  cases hc : t.start.column with
  | null => exact .inl fun level => ⟨_, Token.marker_of_unknown hc type (.int level) unit⟩
  | real x => exact absurd hc (ht x)
  | bool b =>
    refine .inl fun level => ⟨{ t.start with column := .int ((if b then 1 else 0) + level * n) }, ?_⟩
    simp only [Token.marker, hc, htimes, bind, Except.bind]
    rfl
  | int c =>
    refine .inl fun level => ⟨{ t.start with column := .int (c + level * n) }, ?_⟩
    simp only [Token.marker, hc, htimes, bind, Except.bind]
    rfl
  | text s =>
    exact .inr fun level => ⟨_, by simp only [Token.marker, hc, htimes, bind, Except.bind]; rfl⟩
  | list xs =>
    exact .inr fun level => ⟨_, by simp only [Token.marker, hc, htimes, bind, Except.bind]; rfl⟩
  | record fields =>
    exact .inr fun level => ⟨_, by simp only [Token.marker, hc, htimes, bind, Except.bind]; rfl⟩

/-- Where there is a marker for every level, all of them are opened. -/
theorem openEach_of_all {kinds : Kinds} {trigger : Option Token} (levels : List Int) : ∀ {s : Levels},
    (∀ level : Int, ∃ place,
      Token.markerOf kinds.indent (.int level) trigger s.unit = .ok (Token.markerAt kinds.indent (.int level) place)) →
    levels = (List.range levels.length).map (fun (i : Nat) => (s.depth : Int) + i) →
    ∃ ms, Opens kinds s.depth ms ∧
      s.openEach kinds trigger levels = (.ok ms, ⟨s.unit, ⟨(ms.map kinds.closing).reverse ++ s.ledger.pending⟩⟩) := by
  induction levels with
  | nil => exact fun {s} _ _ => ⟨[], .nil, rfl⟩
  | cons level deeper ih =>
    intro s hall hlevels
    rw [List.length_cons, List.range_succ_eq_map, List.map_cons, List.map_map] at hlevels
    obtain ⟨hlevel, hdeeper⟩ := List.cons.inj hlevels
    obtain ⟨place, hm⟩ := hall level
    let m := Token.markerAt kinds.indent (.int level) place
    have hdepth : (s.opened kinds m).depth = s.depth + 1 := by simp [depth, opened]
    obtain ⟨ms, hms, heq⟩ := ih (s := s.opened kinds m) hall (by
      rw [hdepth]
      refine hdeeper.trans (List.map_congr_left fun i _ => ?_)
      simp only [Function.comp_apply, Nat.succ_eq_add_one]
      omega)
    refine ⟨m :: ms, .cons rfl ?_ (hdepth ▸ hms), ?_⟩
    · simp [m, Token.markerAt, hlevel]
    · simp only [openEach, hm]
      rw [show Token.markerAt kinds.indent (.int level) place = m from rfl, heq]
      simp [opened, Ledger.push, Kinds.closing, Except.map]

theorem openEach_moved {kinds : Kinds} {trigger : Option Token}
    (ht : ∀ t ∈ trigger, ∀ x : Float, t.start.column ≠ .real x)
    {s : Levels} {n : Int} (hu : s.unit.number? = some (.whole n)) (depth : Int) :
    Moved kinds s (s.openEach kinds trigger (s.above depth)) := by
  have hlevels : s.above depth =
      (List.range (s.above depth).length).map (fun (i : Nat) => (s.depth : Int) + i) := by simp [above]
  generalize s.above depth = levels at hlevels ⊢
  have hnone (h : ∀ level : Int, ∃ f, Token.markerOf kinds.indent (.int level) trigger s.unit = .error f) :
      Moved kinds s (s.openEach kinds trigger levels) := by
    cases levels with
    | nil => exact .opened _ .nil
    | cons level deeper =>
      obtain ⟨f, hf⟩ := h level
      rw [openEach, hf]
      exact .failed _ f
  cases trigger with
  | none => exact hnone fun level => ⟨_, rfl⟩
  | some t =>
    rcases marker_all_or_none (ht t rfl) hu kinds.indent with hall | hno
    · have hmarks (level : Int) : ∃ place,
          Token.markerOf kinds.indent (.int level) (some t) s.unit = .ok (.markerAt kinds.indent (.int level) place) :=
        (hall level).imp fun _ => Token.markerOf_some
      obtain ⟨ms, hms, heq⟩ := openEach_of_all levels hmarks hlevels
      rw [heq]
      exact .opened _ hms
    · refine hnone fun level => ?_
      obtain ⟨e, he⟩ := hno level
      refine ⟨.kind e, ?_⟩
      rw [Token.markerOf, he]
      rfl

/-! ## Any move -/

theorem popTo_moved {kinds : Kinds} {s : Levels} (depth : Int) :
    Moved kinds s (match s.ledger.popTo depth with
      | .error f => (.error f, s)
      | .ok (closing, ledger) => (.ok closing, { s with ledger })) := by
  unfold Ledger.popTo
  split <;> rename_i h <;> split at h <;> cases h
  · exact .failed _ _
  · exact .closed _ _

theorem moveTo_moved {kinds : Kinds} {trigger : Option Token}
    (ht : ∀ t ∈ trigger, ∀ x : Float, t.start.column ≠ .real x)
    {s : Levels} {n : Int} (hu : s.unit.number? = some (.whole n)) (depth : Int) :
    Moved kinds s (s.moveTo kinds depth trigger) := by
  unfold moveTo
  split
  · exact popTo_moved depth
  · exact openEach_moved ht hu depth

theorem moveToNumber_real_moved {kinds : Kinds} {trigger : Option Token} {s : Levels} (depth : Float) :
    Moved kinds s (s.moveToNumber kinds (.real depth) trigger) := by
  unfold moveToNumber
  dsimp only
  split
  · simp only [Ledger.popToValue, Datum.number?]
    by_cases h : depth < 0
    · rw [if_pos h]
      exact .failed _ _
    · rw [if_neg h]
      exact popTo_moved _
  · exact .failed _ _

theorem number?_of_quotient_whole {length unit : Datum} {depth : Int} (h : length.quotient unit = .ok (.whole depth)) :
    ∃ n, unit.number? = some (.whole n) := by
  unfold Datum.quotient at h
  split at h
  · rename_i m n hm hn
    cases n with
    | whole n => exact ⟨n, hn⟩
    | real x =>
      cases m with
      | whole m =>
        simp only [Number.quotient, Number.combine, bind, Except.bind] at h
        cases hr : (Number.whole m).toReal <;> rw [hr] at h <;> cases h
      | real y => cases h
  · cases h

theorem moveByQuotient_moved {kinds : Kinds} {trigger : Option Token}
    (ht : ∀ t ∈ trigger, ∀ x : Float, t.start.column ≠ .real x) {s : Levels} (length : Datum) :
    Moved kinds s (s.moveByQuotient kinds length trigger) := by
  unfold moveByQuotient
  cases hq : length.quotient s.unit with
  | error e => exact .failed _ _
  | ok depth =>
    cases depth with
    | whole depth =>
      obtain ⟨n, hu⟩ := number?_of_quotient_whole hq
      exact moveTo_moved ht hu depth
    | real depth => exact moveToNumber_real_moved depth

/-- **An indentation closes the deepest levels, opens some at once, or changes nothing but the unit and faults.** -/
theorem reconcile_moved {kinds : Kinds} {trigger : Option Token}
    (ht : ∀ t ∈ trigger, ∀ x : Float, t.start.column ≠ .real x) (s : Levels) (length : Datum) :
    Moved kinds s (s.reconcile kinds length trigger) := by
  unfold reconcile
  split
  · have h : Moved kinds s _ := .closed s.unit s.ledger.pending.length
    rwa [List.take_length, List.drop_length] at h
  · split
    · unfold fixUnit
      cases trigger with
      | none => exact .failed _ _
      | some t => exact (moveByQuotient_moved ht length).of_unit
    · split
      · exact .failed _ _
      · exact moveByQuotient_moved ht length
      · exact .failed _ _
      · exact .failed _ _

/-! ## Markers and nothing else

Where the columns may be fractions too, and levels stay open behind a fault, this much is left: every token that comes
out is a marker, and so is every one in the ledger.
-/

/-- What comes of an indentation is markers and nothing else, in the ledger as well. -/
structure OnlyMarkers (o : Except Fault (List Token) × Levels) : Prop where
  given : ∀ ms, o.1 = .ok ms → ∀ m ∈ ms, m.isMarker = true
  pending : ∀ m ∈ o.2.ledger.pending, m.isMarker = true

section
variable {kinds : Kinds} {trigger : Option Token}

theorem onlyMarkers_error {s : Levels} (h : ∀ m ∈ s.ledger.pending, m.isMarker = true) (f : Fault) :
    OnlyMarkers (.error f, s) :=
  ⟨nofun, h⟩

theorem isMarker_of_markerOf {type : TokenType} {level unit : Datum} {m : Token}
    (h : Token.markerOf type level trigger unit = .ok m) : m.isMarker = true := by
  unfold Token.markerOf at h
  cases trigger with
  | none => cases h
  | some t =>
    unfold Token.marker at h
    dsimp only at h
    split at h
    · cases h
      rfl
    · cases ht : level.times unit with
      | error e =>
        rw [ht] at h
        cases h
      | ok width =>
        cases hc : t.start.column.increased width with
        | error e =>
          simp only [ht, bind, Except.bind, hc] at h
          cases h
        | ok column =>
          simp only [ht, bind, Except.bind, hc] at h
          cases h
          rfl

theorem openEach_onlyMarkers (levels : List Int) : ∀ {s : Levels}, (∀ m ∈ s.ledger.pending, m.isMarker = true) →
    OnlyMarkers (s.openEach kinds trigger levels) := by
  induction levels with
  | nil =>
    intro s h
    refine ⟨fun ms hms => ?_, h⟩
    cases hms
    nofun
  | cons level deeper ih =>
    intro s h
    unfold openEach
    cases hm : Token.markerOf kinds.indent (.int level) trigger s.unit with
    | error f => exact onlyMarkers_error h f
    | ok m =>
      have hmarker : m.isMarker = true := isMarker_of_markerOf hm
      have hopened := ih (s := s.opened kinds m) (List.forall_mem_cons.2 ⟨hmarker, h⟩)
      refine ⟨fun ms hms => ?_, hopened.pending⟩
      obtain ⟨ms', hms', rfl⟩ : ∃ ms', ((s.opened kinds m).openEach kinds trigger deeper).1 = .ok ms' ∧ m :: ms' = ms := by
        dsimp only at hms
        cases ho : ((s.opened kinds m).openEach kinds trigger deeper).1 with
        | error f => rw [ho] at hms; cases hms
        | ok ms' => rw [ho] at hms; cases hms; exact ⟨ms', rfl, rfl⟩
      exact List.forall_mem_cons.2 ⟨hmarker, hopened.given ms' hms'⟩

theorem onlyMarkers_popped {s : Levels} (h : ∀ m ∈ s.ledger.pending, m.isMarker = true) {taken : List Token}
    {left : Ledger Token} (hp : taken ⊆ s.ledger.pending ∧ left.pending ⊆ s.ledger.pending) :
    OnlyMarkers (.ok taken, { s with ledger := left }) := by
  refine ⟨fun ms hms => ?_, fun m hm => h m (hp.2 hm)⟩
  cases hms
  exact fun m hm => h m (hp.1 hm)

theorem subset_of_popTo {l left : Ledger Token} {depth : Int} {taken : List Token}
    (h : l.popTo depth = .ok (taken, left)) : taken ⊆ l.pending ∧ left.pending ⊆ l.pending := by
  unfold Ledger.popTo at h
  split at h
  · cases h
  · cases h
    exact ⟨List.take_subset _ _, List.drop_subset _ _⟩

theorem moveTo_onlyMarkers {s : Levels} (h : ∀ m ∈ s.ledger.pending, m.isMarker = true) (depth : Int) :
    OnlyMarkers (s.moveTo kinds depth trigger) := by
  unfold moveTo
  split
  · split
    · exact onlyMarkers_error h _
    · rename_i hp
      exact onlyMarkers_popped h (subset_of_popTo hp)
  · exact openEach_onlyMarkers _ h

theorem moveByQuotient_onlyMarkers {s : Levels} (h : ∀ m ∈ s.ledger.pending, m.isMarker = true) (length : Datum) :
    OnlyMarkers (s.moveByQuotient kinds length trigger) := by
  unfold moveByQuotient moveToNumber
  split
  · exact onlyMarkers_error h _
  · split
    · exact moveTo_onlyMarkers h _
    · split
      · split
        · exact onlyMarkers_error h _
        · rename_i hp
          simp only [Ledger.popToValue, Datum.number?] at hp
          split at hp
          · cases hp
          · exact onlyMarkers_popped h (subset_of_popTo hp)
      · exact onlyMarkers_error h _

/-- **An indentation gives markers and nothing else**, as long as the ledger holds nothing else. -/
theorem reconcile_onlyMarkers {s : Levels} (h : ∀ m ∈ s.ledger.pending, m.isMarker = true) (length : Datum) :
    OnlyMarkers (s.reconcile kinds length trigger) := by
  unfold reconcile
  split
  · refine ⟨fun ms hms => ?_, nofun⟩
    cases hms
    exact h
  · split
    · unfold fixUnit
      cases trigger with
      | none => exact onlyMarkers_error (s := { s with unit := length }) h _
      | some t => exact moveByQuotient_onlyMarkers (s := { s with unit := length }) h length
    · split
      · exact onlyMarkers_error h _
      · exact moveByQuotient_onlyMarkers h length
      · exact onlyMarkers_error h _
      · exact onlyMarkers_error h _

end
/-! ## The unit

An indentation is refused before anything is done about it, so a refusal leaves the levels as they are.  A unit that is
not zero is never replaced.
-/

/-- A move to a depth, which keeps the unit and refuses no indentation, whatever else it comes to. -/
structure KeepsUnit (s : Levels) (o : Except Fault (List Token) × Levels) : Prop where
  unit : o.2.unit = s.unit
  not_refused : ∀ e, o.1 ≠ .error (.indent e)

section
variable {kinds : Kinds} {trigger : Option Token}

theorem markerOf_ne_indent {type : TokenType} {level unit : Datum} {f : Fault}
    (h : Token.markerOf type level trigger unit = .error f) (e : IndentError) : f ≠ .indent e := by
  cases trigger with
  | none =>
    cases h
    simp
  | some t =>
    rw [Token.markerOf] at h
    cases hm : Token.marker type level t unit with
    | ok m => rw [hm] at h; cases h
    | error k =>
      rw [hm] at h
      cases h
      simp

theorem keepsUnit_error (s : Levels) {f : Fault} (h : ∀ e, f ≠ .indent e) : KeepsUnit s (.error f, s) :=
  ⟨rfl, fun e he => h e (Except.error.inj he)⟩

theorem openEach_keepsUnit (levels : List Int) : ∀ s : Levels, KeepsUnit s (s.openEach kinds trigger levels) := by
  induction levels with
  | nil => exact fun s => ⟨rfl, nofun⟩
  | cons level deeper ih =>
    intro s
    rw [openEach]
    split
    · rename_i hf
      exact keepsUnit_error s (markerOf_ne_indent hf)
    · rename_i opening _
      obtain ⟨hunit, hfits⟩ := ih (s.opened kinds opening)
      refine ⟨hunit, fun e he => ?_⟩
      cases ho : ((s.opened kinds opening).openEach kinds trigger deeper).1 with
      | ok ms => simp [ho, Except.map] at he
      | error f =>
        simp only [ho, Except.map, Except.error.injEq] at he
        exact hfits e (he ▸ ho)

theorem popTo_ne_indent {l : Ledger Token} {depth : Int} {f : Fault} (h : l.popTo depth = .error f) (e : IndentError) :
    f ≠ .indent e := by
  unfold Ledger.popTo at h
  split at h
  · cases h
    nofun
  · cases h

theorem moveTo_keepsUnit (s : Levels) (depth : Int) : KeepsUnit s (s.moveTo kinds depth trigger) := by
  unfold moveTo
  split
  · split
    · rename_i hp
      exact keepsUnit_error s (popTo_ne_indent hp)
    · exact ⟨rfl, nofun⟩
  · exact openEach_keepsUnit _ s

theorem moveByQuotient_keepsUnit (s : Levels) (length : Datum) : KeepsUnit s (s.moveByQuotient kinds length trigger) := by
  unfold moveByQuotient moveToNumber
  split
  · exact keepsUnit_error s (by simp)
  · split
    · exact moveTo_keepsUnit s _
    · split
      · split
        · rename_i hp
          simp only [Ledger.popToValue, Datum.number?] at hp
          split at hp
          · cases hp
            exact keepsUnit_error s (by simp)
          · exact keepsUnit_error s (popTo_ne_indent hp)
        · exact ⟨rfl, by simp⟩
      · exact keepsUnit_error s (by simp)

/-- **A unit that is not zero stays as it is**, whatever indentation is measured. -/
theorem unit_reconcile {s : Levels} (h : s.unit.isZero = false) (length : Datum) :
    (s.reconcile kinds length trigger).2.unit = s.unit := by
  unfold reconcile
  rw [h, if_neg Bool.false_ne_true]
  repeat' split
  · rfl
  · rfl
  · exact (moveByQuotient_keepsUnit s length).unit
  · rfl
  · rfl

/-- **An indentation that is refused changes nothing**, and is not zero. -/
theorem reconcile_refused {s : Levels} {length : Datum} {e : IndentError}
    (h : (s.reconcile kinds length trigger).1 = .error (.indent e)) :
    (s.reconcile kinds length trigger).2 = s ∧ length.isZero = false := by
  unfold reconcile fixUnit at h ⊢
  split at h
  · cases h
  · rename_i hl
    rw [if_neg hl]
    refine ⟨?_, Bool.eq_false_iff.2 hl⟩
    split at h
    · cases trigger with
      | none => cases h
      | some t => exact absurd h ((moveByQuotient_keepsUnit _ length).not_refused e)
    · rename_i hu
      rw [if_neg hu]
      split at h
      · cases h
      · exact absurd h ((moveByQuotient_keepsUnit s length).not_refused e)
      · cases h
      · rfl

end
end Levels
end Offside
