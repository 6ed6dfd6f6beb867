import Offside.Proofs.Levels.Moves
import Offside.Tokenize
/-!
# Sequences of indentations

Indentations that are integers, below zero or not, are measured one after another from no open level on.  Each of them
lands exactly on its depth or changes nothing (`reconcile_exact`).  The first one other than zero fixes the unit, which
may be below zero then, and from there on an indentation is refused if the unit does not divide it, or if the depth it
calls for is below zero.

What carries this is that the ledger has the closing marker of every level below the depth, in order, and none as long
as there is no unit (`IsCounted`): so a level that is closed gives the marker of its own number, and the depth by the
unit is the indentation again.
-/
namespace Offside

/-- What a marker is: its type and its level. -/
def Token.mark (m : Token) : TokenType × Option Datum :=
  (m.type, m.level)

/-- A measured indentation, and the token behind it if there is one. -/
structure Measurement where
  length : Int
  trigger : Option Token

/-- Whether an indentation, unless it is zero, has a token behind it that counts its columns: the column is unknown, or
an integer or what counts as one. -/
def Measurement.IsTriggered (m : Measurement) : Prop :=
  m.length ≠ 0 → ∃ t, m.trigger = some t ∧
    (t.start.column = .null ∨ ∃ n : Int, t.start.column.number? = some (.whole n))

namespace Levels

/-- The marks of some levels from a depth on, the outermost first. -/
def marksFrom (type : TokenType) (depth count : Nat) : List (TokenType × Option Datum) :=
  (List.range' depth count).map (fun (i : Nat) => (type, some (.int i)))

/-- The levels behind some indentations. -/
def behindAll (kinds : Kinds) (s : Levels) (ms : List Measurement) : Levels :=
  ms.foldl (fun s m => (s.reconcile kinds (.int m.length) m.trigger).2) s

/-- Levels with a unit, whose ledger has a closing marker for each of them; as long as the unit is zero, none is open. -/
structure IsCounted (kinds : Kinds) (s : Levels) : Prop where
  unit : ∃ u : Int, s.unit = .int u ∧ (u = 0 → s.depth = 0)
  ledger : s.ledger.toList.map Token.mark = marksFrom kinds.dedent 0 s.depth

/-- What is so of the markers of a move from some levels to others, and of the levels: the markers open the levels that
are missing, or close those that are too many; the ledger is left alone up to the lesser depth. -/
structure Moves (kinds : Kinds) (s : Levels) (markers : List Token) (s' : Levels) : Prop where
  markers : s.depth ≤ s'.depth ∧ markers.map Token.mark = marksFrom kinds.indent s.depth (s'.depth - s.depth) ∨
    s'.depth ≤ s.depth ∧ markers.map Token.mark = (marksFrom kinds.dedent s'.depth (s.depth - s'.depth)).reverse
  kept : s'.ledger.toList.take (min s.depth s'.depth) = s.ledger.toList.take (min s.depth s'.depth)

/-- Levels that an indentation leads to: their depth by the unit is the indentation, and the same indentation once more
changes nothing, whatever token stands behind it. -/
structure LandsOn (kinds : Kinds) (s : Levels) (length : Int) : Prop where
  exact : ∃ u : Int, s.unit = .int u ∧ s.depth * u = length
  again : ∀ trigger, s.reconcile kinds (.int length) trigger = (.ok [], s)

/-- How an indentation is taken at a unit, zero if none is fixed: it lands on its depth, or it is refused, and then it
changes nothing. -/
inductive Taken (kinds : Kinds) (s : Levels) (u length : Int) : Except Fault (List Token) × Levels → Prop
  | lands {ms : List Token} {s' : Levels} (counted : s'.IsCounted kinds) (moves : Moves kinds s ms s')
      (lands : s'.LandsOn kinds length) (unit : u ≠ 0 → s'.unit = .int u) (whole : u ≠ 0 → u ∣ length)
      (above : u ≠ 0 → 0 ≤ length.fdiv u) : Taken kinds s u length (.ok ms, s')
  | between {e : IndentError} (unit : u ≠ 0) (rest : ¬ u ∣ length) (length_eq : e.length = .int length)
      (unit_eq : e.unit = s.unit) : Taken kinds s u length (.error (.indent e), s)
  | below (unit : u ≠ 0) (whole : u ∣ length) (below : length.fdiv u < 0) :
      Taken kinds s u length (.error (.belowZero (.int (length.fdiv u))), s)

section
variable {kinds : Kinds} {s : Levels}

theorem length_marksFrom (type : TokenType) (depth count : Nat) : (marksFrom type depth count).length = count := by
  simp [marksFrom]

theorem marksFrom_append (type : TokenType) (depth count more : Nat) :
    marksFrom type depth (count + more) = marksFrom type depth count ++ marksFrom type (depth + count) more := by
  rw [marksFrom, marksFrom, marksFrom, ← List.map_append, ← List.range'_append_1]

theorem marks_of_opens {depth : Nat} {ms : List Token} (h : Opens kinds depth ms) :
    ms.map Token.mark = marksFrom kinds.indent depth ms.length := by
  induction h with
  | nil => rfl
  | @cons depth m ms ht hl _ ih =>
    rw [List.map_cons, ih, List.length_cons, marksFrom, marksFrom, List.range'_succ, List.map_cons, Token.mark, ht, hl]

theorem marks_closing {depth : Nat} {ms : List Token} (h : Opens kinds depth ms) :
    (ms.map kinds.closing).map Token.mark = marksFrom kinds.dedent depth ms.length := by
  induction h with
  | nil => rfl
  | @cons depth m ms ht hl _ ih =>
    rw [List.map_cons, List.map_cons, ih, List.length_cons, marksFrom, marksFrom, List.range'_succ, List.map_cons,
      Token.mark, Kinds.level_closing, hl]
    rfl

theorem isCounted_start (kinds : Kinds) (unit : Nat) : IsCounted kinds (.start (.int unit)) :=
  ⟨⟨unit, rfl, fun _ => rfl⟩, rfl⟩

/-! ## Moving -/

theorem closeDown (h : s.IsCounted kinds) {n : Nat} (hn : n ≤ s.depth) :
    ∃ closing ledger, s.ledger.popTo n = .ok (closing, ledger) ∧ ledger.depth = n ∧
      ledger.toList = s.ledger.toList.take n ∧
      closing.map Token.mark = (marksFrom kinds.dedent n (s.depth - n)).reverse := by
  refine ⟨_, _, s.ledger.toList_popTo n, ?_, by simp [Ledger.toList], ?_⟩
  · have hlength : s.ledger.toList.length = s.depth := s.ledger.length_toList
    simp [Ledger.depth, hlength, hn]
  · have hsplit := marksFrom_append kinds.dedent 0 n (s.depth - n)
    rw [Nat.add_sub_cancel' hn, Nat.zero_add] at hsplit
    rw [List.map_reverse, List.map_drop, h.ledger, hsplit, List.drop_left' (length_marksFrom _ _ _)]

theorem marker_of_counted {t : Token}
    (ht : t.start.column = .null ∨ ∃ n : Int, t.start.column.number? = some (.whole n)) (type : TokenType)
    (level unit : Int) :
    ∃ place, Token.marker type (.int level) t (.int unit) = .ok (Token.markerAt type (.int level) place) := by
  rcases ht with hc | ⟨n, hn⟩
  · exact ⟨_, Token.marker_of_unknown hc type _ _⟩
  · cases hc : t.start.column with
    | int column => exact ⟨_, Token.marker_of_int hc type level unit⟩
    | bool b =>
      refine ⟨{ t.start with column := .int ((if b then 1 else 0) + level * unit) }, ?_⟩
      simp only [Token.marker, hc, Datum.times_int, bind, Except.bind]
      rfl
    | null | real | text | list | record =>
      rw [hc] at hn
      cases hn

theorem length_of_openEach {trigger : Option Token} (levels : List Int) : ∀ {s s' : Levels} {ms : List Token},
    s.openEach kinds trigger levels = (.ok ms, s') → ms.length = levels.length := by
  induction levels with
  | nil =>
    intro s s' ms h
    cases h
    rfl
  | cons level deeper ih =>
    intro s s' ms h
    unfold openEach at h
    split at h
    · cases h
    · rename_i opening _
      cases ho : (s.opened kinds opening).openEach kinds trigger deeper with
      | mk result s'' =>
        rw [ho] at h
        cases result with
        | error f => cases h
        | ok rest =>
          cases h
          exact congrArg (· + 1) (ih ho)

theorem openUp (h : s.IsCounted kinds) {u : Int} (hu : s.unit = .int u) {t : Token}
    (ht : t.start.column = .null ∨ ∃ n : Int, t.start.column.number? = some (.whole n)) {n : Nat} (hn : s.depth ≤ n) :
    ∃ opening ledger, s.openEach kinds (some t) (s.above n) = (.ok opening, ⟨s.unit, ledger⟩) ∧ ledger.depth = n ∧
      ledger.toList.take s.depth = s.ledger.toList ∧ ledger.toList.map Token.mark = marksFrom kinds.dedent 0 n ∧
      opening.map Token.mark = marksFrom kinds.indent s.depth (n - s.depth) := by
  have hmarkers (level : Int) : ∃ place, Token.markerOf kinds.indent (.int level) (some t) s.unit =
      .ok (.markerAt kinds.indent (.int level) place) := by
    rw [hu]
    exact (marker_of_counted ht kinds.indent level u).imp fun _ => Token.markerOf_some
  obtain ⟨ms, hms, heq⟩ := openEach_of_all (s.above n) hmarkers (by simp [above])
  have hcount : ms.length = n - s.depth := by
    rw [length_of_openEach _ heq]
    simp only [above, List.length_map, List.length_range]
    omega
  have hdepth : s.ledger.toList.length = s.depth := s.ledger.length_toList
  have hlist : Ledger.toList ⟨(ms.map kinds.closing).reverse ++ s.ledger.pending⟩ =
      s.ledger.toList ++ ms.map kinds.closing := by
    simp [Ledger.toList]
  refine ⟨ms, _, heq, ?_, ?_, ?_, ?_⟩
  · have hpending : s.ledger.pending.length = s.depth := rfl
    simp only [Ledger.depth, List.length_append, List.length_reverse, List.length_map, hcount, hpending]
    omega
  · rw [hlist, List.take_left' hdepth]
  · have hsplit := marksFrom_append kinds.dedent 0 s.depth (n - s.depth)
    rw [Nat.add_sub_cancel' hn, Nat.zero_add] at hsplit
    rw [hlist, List.map_append, h.ledger, marks_closing hms, hcount, hsplit]
  · rw [marks_of_opens hms, hcount]

/-- Moving to a depth opens or closes what lies between, one level at a time. -/
theorem moveTo_exact (h : s.IsCounted kinds) {u : Int} (hu : s.unit = .int u) (hu0 : u ≠ 0) {t : Token}
    (ht : t.start.column = .null ∨ ∃ n : Int, t.start.column.number? = some (.whole n)) (n : Nat) :
    ∃ markers s', s.moveTo kinds n (some t) = (.ok markers, s') ∧ s'.unit = s.unit ∧ s'.depth = n ∧
      s'.IsCounted kinds ∧ Moves kinds s markers s' := by
  unfold moveTo
  by_cases hn : (n : Int) < s.depth
  · have hle : n ≤ s.depth := by omega
    obtain ⟨closing, ledger, hpop, hdepth, hkept, hmarks⟩ := closeDown h hle
    have hdepth' : Levels.depth ⟨s.unit, ledger⟩ = n := hdepth
    rw [if_pos hn, hpop]
    refine ⟨closing, ⟨s.unit, ledger⟩, rfl, rfl, hdepth', ⟨⟨u, hu, fun h0 => absurd h0 hu0⟩, ?_⟩, .inr ?_, ?_⟩
    · have hsplit := marksFrom_append kinds.dedent 0 n (s.depth - n)
      rw [Nat.add_sub_cancel' hle] at hsplit
      rw [hdepth', hkept, List.map_take, h.ledger, hsplit, List.take_left' (length_marksFrom _ _ _)]
    · rw [hdepth']
      exact ⟨hle, hmarks⟩
    · rw [hdepth', Nat.min_eq_right hle, hkept, List.take_take, Nat.min_self]
  · have hle : s.depth ≤ n := by omega
    obtain ⟨opening, ledger, hopen, hdepth, hkept, hledger, hmarks⟩ := openUp h hu ht hle
    have hdepth' : Levels.depth ⟨s.unit, ledger⟩ = n := hdepth
    have hall : s.ledger.toList.take s.depth = s.ledger.toList :=
      List.take_of_length_le (Nat.le_of_eq s.ledger.length_toList)
    rw [if_neg hn, hopen]
    refine ⟨opening, ⟨s.unit, ledger⟩, rfl, rfl, hdepth', ⟨⟨u, hu, fun h0 => absurd h0 hu0⟩, ?_⟩, .inl ?_, ?_⟩
    · rw [hdepth']
      exact hledger
    · rw [hdepth']
      exact ⟨hle, hmarks⟩
    · rw [hdepth', Nat.min_eq_left hle, hall]
      exact hkept

/-! ## Landing -/

theorem openEach_nil (s : Levels) (kinds : Kinds) (trigger : Option Token) :
    s.openEach kinds trigger [] = (.ok [], s) := rfl

/-- Where the depth by the unit is the indentation, there is nothing left to move. -/
theorem landsOn_of_counted (h : s.IsCounted kinds) {u : Int} (hu : s.unit = .int u) {length : Int}
    (hlength : s.depth * u = length) : s.LandsOn kinds length where
  exact := ⟨u, hu, hlength⟩
  again := by
    intro trigger
    by_cases hl : length = 0
    · have hdepth : s.depth = 0 := by
        obtain ⟨u', hu', hnone⟩ := h.unit
        obtain rfl := Datum.int.inj (hu.symm.trans hu')
        rcases Int.mul_eq_zero.1 (hlength.trans hl) with h0 | h0
        · exact Int.ofNat_eq_zero.1 h0
        · exact hnone h0
      obtain ⟨unit, pending⟩ := s
      obtain rfl : pending = ⟨[]⟩ := congrArg Ledger.mk (List.length_eq_zero_iff.1 hdepth)
      rw [hl]
      rfl
    · have hu0 : u ≠ 0 := by
        rintro rfl
        exact hl (by rw [← hlength, Int.mul_zero])
      have hquotient : length.fdiv u = s.depth := by rw [← hlength, Int.mul_fdiv_cancel _ hu0]
      have hrest : length.fmod u = 0 := by rw [← hlength, Int.mul_fmod_left]
      have habove : s.above s.depth = [] := by simp [above]
      unfold reconcile moveByQuotient
      simp [hu, hl, hu0, hrest, hquotient, Datum.leavesRest_int, Datum.quotient_int, moveToNumber, moveTo, habove, openEach_nil]

/-! ## One indentation -/

theorem fmod_eq_zero_iff (length u : Int) : length.fmod u = 0 ↔ u ∣ length :=
  ⟨Int.dvd_of_fmod_eq_zero, Int.fmod_eq_zero_of_dvd⟩

/-- No indentation closes every level. -/
theorem taken_zero (h : s.IsCounted kinds) {u : Int} (hu : s.unit = .int u) (trigger : Option Token) :
    Taken kinds s u 0 (s.reconcile kinds (.int 0) trigger) := by
  have hcounted : IsCounted kinds s.closeAll.2 := ⟨⟨u, hu, fun _ => rfl⟩, rfl⟩
  refine .lands hcounted ⟨.inr ⟨Nat.zero_le _, ?_⟩, ?_⟩ (landsOn_of_counted hcounted hu (Int.zero_mul u)) (fun _ => hu)
    (fun _ => Int.dvd_zero u) (fun _ => by simp)
  · have hledger := congrArg List.reverse h.ledger
    rw [← List.map_reverse, Ledger.toList, List.reverse_reverse] at hledger
    exact hledger
  · have hnone : min s.depth (depth s.closeAll.2) = 0 := Nat.min_zero s.depth
    rw [hnone, List.take_zero, List.take_zero]

/-- The first indentation fixes the unit, and opens the first level. -/
theorem taken_first (h : s.IsCounted kinds) (hu : s.unit = .int 0) {length : Int} (hl : length ≠ 0) {t : Token}
    (ht : t.start.column = .null ∨ ∃ n : Int, t.start.column.number? = some (.whole n)) :
    Taken kinds s 0 length ({ s with unit := .int length }.moveTo kinds (length.fdiv length) (some t)) := by
  have hdepth : s.depth = 0 := by
    obtain ⟨u, hu', hnone⟩ := h.unit
    exact hnone (Datum.int.inj (hu'.symm.trans hu))
  have hfixed : IsCounted kinds { s with unit := .int length } := ⟨⟨length, rfl, fun h0 => absurd h0 hl⟩, h.ledger⟩
  obtain ⟨ms, s', hmove, hunit, hone, hcounted, hmoves⟩ := moveTo_exact hfixed rfl hl ht 1
  have hlands : s'.LandsOn kinds length := landsOn_of_counted hcounted hunit (by rw [hone]; exact Int.one_mul length)
  rw [Int.fdiv_self hl, show (1 : Int) = (1 : Nat) from rfl, hmove]
  exact .lands hcounted ⟨hmoves.markers, hmoves.kept⟩ hlands (fun h0 => absurd rfl h0) (fun h0 => absurd rfl h0)
    (fun h0 => absurd rfl h0)

/-- A multiple of the unit leads to its quotient, unless that is below zero. -/
theorem taken_multiple (h : s.IsCounted kinds) {u : Int} (hu : s.unit = .int u) (hu0 : u ≠ 0) {length : Int}
    (hwhole : u ∣ length) {t : Token}
    (ht : t.start.column = .null ∨ ∃ n : Int, t.start.column.number? = some (.whole n)) :
    Taken kinds s u length (s.moveTo kinds (length.fdiv u) (some t)) := by
  rcases Int.lt_or_le (length.fdiv u) 0 with hneg | hpos
  · have hbelow : length.fdiv u < s.depth := Int.lt_of_lt_of_le hneg (Int.natCast_nonneg _)
    rw [moveTo, if_pos hbelow, Ledger.popTo_neg _ hneg]
    exact .below hu0 hwhole hneg
  · obtain ⟨n, hn⟩ := Int.eq_ofNat_of_zero_le hpos
    obtain ⟨ms, s', hmove, hunit, hdepth, hcounted, hmoves⟩ := moveTo_exact h hu hu0 ht n
    have hexact : (s'.depth : Int) * u = length := by
      rw [hdepth, ← hn, Int.fdiv_mul_cancel hwhole]
    rw [hn, hmove]
    exact .lands hcounted hmoves (landsOn_of_counted hcounted (hunit.trans hu) hexact) (fun _ => hunit.trans hu)
      (fun _ => hwhole) (fun _ => hpos)

/-- An indentation is taken or refused. -/
theorem reconcile_taken (h : s.IsCounted kinds) {u : Int} (hu : s.unit = .int u) {m : Measurement}
    (hm : m.IsTriggered) : Taken kinds s u m.length (s.reconcile kinds (.int m.length) m.trigger) := by
  by_cases hl : m.length = 0
  · rw [hl]
    exact taken_zero h hu m.trigger
  · obtain ⟨t, htrigger, ht⟩ := hm hl
    rw [htrigger, reconcile_int hu, if_neg hl]
    by_cases hu0 : u = 0
    · subst hu0
      rw [if_pos rfl]
      exact taken_first h hu hl ht
    · rw [if_neg hu0]
      by_cases hwhole : u ∣ m.length
      · rw [if_pos ((fmod_eq_zero_iff _ _).2 hwhole)]
        exact taken_multiple h hu hu0 hwhole ht
      · rw [if_neg (mt (fmod_eq_zero_iff _ _).1 hwhole)]
        exact .between hu0 hwhole rfl rfl

/-! ## Indentations in a row -/

theorem Taken.counted {u length : Int} {o : Except Fault (List Token) × Levels} (h : s.IsCounted kinds)
    (ho : Taken kinds s u length o) : o.2.IsCounted kinds := by
  cases ho with
  | lands hcounted => exact hcounted
  | between | below => exact h

/-- Behind every row of indentations the ledger has the marker of each level, in order. -/
theorem isCounted_behindAll (ms : List Measurement) : ∀ {s : Levels}, s.IsCounted kinds →
    (∀ m ∈ ms, m.IsTriggered) → (s.behindAll kinds ms).IsCounted kinds := by
  induction ms with
  | nil => exact fun h _ => h
  | cons m ms ih =>
    intro s h hms
    obtain ⟨u, hu, _⟩ := h.unit
    exact ih ((reconcile_taken h hu (hms m List.mem_cons_self)).counted h) fun x hx => hms x (List.mem_cons_of_mem _ hx)

end

/-- **Every indentation lands exactly or changes nothing.**  Behind any row of integer indentations, the next one leads
to the depth that is its quotient by the unit, and gives the markers of the levels in between; or it is refused, as no
multiple of the unit or as one below zero, and all levels stay as they are. -/
theorem reconcile_exact (kinds : Kinds) (unit : Nat) (before : List Measurement) (m : Measurement)
    (h : ∀ x ∈ before ++ [m], x.IsTriggered) :
    let s := behindAll kinds (.start (.int unit)) before
    let o := s.reconcile kinds (.int m.length) m.trigger
    ∃ u : Int, s.unit = .int u ∧ (u ≠ 0 → o.2.unit = .int u) ∧
      (∀ markers, o.1 = .ok markers → Moves kinds s markers o.2 ∧ o.2.LandsOn kinds m.length) ∧
      (∀ f, o.1 = .error f → o.2 = s ∧
        ((∃ e, f = .indent e ∧ e.length = .int m.length ∧ e.unit = .int u) ∨ f = .belowZero (.int (m.length.fdiv u)))) ∧
      ((∃ e, o.1 = .error (.indent e)) ↔ u ≠ 0 ∧ ¬ u ∣ m.length) ∧
      ((∃ depth, o.1 = .error (.belowZero depth)) ↔ u ≠ 0 ∧ u ∣ m.length ∧ m.length.fdiv u < 0) := by
  intro s o
  have hs : s.IsCounted kinds :=
    isCounted_behindAll before (isCounted_start kinds unit) fun x hx => h x (List.mem_append_left _ hx)
  obtain ⟨u, hu, _⟩ := hs.unit
  have ho : Taken kinds s u m.length o :=
    reconcile_taken hs hu (h m (List.mem_append_right _ (List.mem_singleton.2 rfl)))
  refine ⟨u, hu, ?_⟩
  clear_value o
  cases ho with
  | @lands ms s' _ hmoves hlands hunit hwhole habove =>
    refine ⟨hunit, fun _ heq => ?_, nofun, ⟨nofun, fun ⟨h0, hrest⟩ => absurd (hwhole h0) hrest⟩,
      ⟨nofun, fun ⟨h0, _, hneg⟩ => absurd hneg (Int.not_lt.2 (habove h0))⟩⟩
    obtain rfl := Except.ok.inj heq
    exact ⟨hmoves, hlands⟩
  | @between e h0 hrest hlength hunit =>
    refine ⟨fun _ => hu, nofun, fun f heq => ?_, ⟨fun _ => ⟨h0, hrest⟩, fun _ => ⟨e, rfl⟩⟩,
      ⟨nofun, fun ⟨_, hwhole, _⟩ => absurd hwhole hrest⟩⟩
    obtain rfl := Except.error.inj heq
    exact ⟨rfl, .inl ⟨e, rfl, hlength, hunit.trans hu⟩⟩
  | below h0 hwhole hneg =>
    refine ⟨fun _ => hu, nofun, fun f heq => ?_, ⟨nofun, fun ⟨_, hrest⟩ => absurd hwhole hrest⟩,
      ⟨fun _ => ⟨h0, hwhole, hneg⟩, fun _ => ⟨_, rfl⟩⟩⟩
    obtain rfl := Except.error.inj heq
    exact ⟨rfl, .inr rfl⟩

/-- Indentations below zero that fix a unit below zero: the next one above zero calls for a depth below zero, and leaves
the three open levels as they are. -/
theorem reconcile_exact_below :
    let t := Token.inColumn "WORD" "a" 1
    let before : List Measurement := [⟨-2, some t⟩, ⟨-3, some t⟩, ⟨0, none⟩, ⟨-6, some t⟩]
    let s := behindAll wordKinds (.start (.int 0)) before
    let o := s.reconcile wordKinds (.int 4) (some t)
    (∀ x ∈ before ++ [⟨4, some t⟩], x.IsTriggered) ∧ s.unit = .int (-2) ∧ s.depth = 3 ∧
      (∃ depth, o.1 = .error (.belowZero depth)) ∧ o.2 = s := by
  intro t before s o
  have hcolumn : t.start.column.number? = some (.whole 1) := rfl
  have hmeasured : ∀ x ∈ before ++ [⟨4, some t⟩], x.IsTriggered := by
    intro x hx h0
    simp only [before, List.cons_append, List.nil_append, List.mem_cons, List.not_mem_nil, or_false] at hx
    rcases hx with rfl | rfl | rfl | rfl | rfl
    · exact ⟨t, rfl, .inr ⟨1, hcolumn⟩⟩
    · exact ⟨t, rfl, .inr ⟨1, hcolumn⟩⟩
    · exact absurd rfl h0
    · exact ⟨t, rfl, .inr ⟨1, hcolumn⟩⟩
    · exact ⟨t, rfl, .inr ⟨1, hcolumn⟩⟩
  have hunit : s.unit = .int (-2) := by decide
  have hdepth : s.depth = 3 := by decide
  obtain ⟨u, hu, _, _, hfails, _, hbelow⟩ := reconcile_exact wordKinds 0 before ⟨4, some t⟩ hmeasured
  obtain rfl : u = -2 := Datum.int.inj (hu.symm.trans hunit)
  obtain ⟨depth, ho⟩ := hbelow.2 ⟨by decide, by decide, by decide⟩
  exact ⟨hmeasured, hunit, hdepth, ⟨depth, ho⟩, (hfails _ ho).1⟩

end Levels
end Offside
