import Offside.Proofs.Levels.Moves
/-!
# Levels that are counted

Over tokens whose columns are integers or unknown, the open levels are a list of opening markers, and an indentation of
some characters is a depth: its quotient by the unit.  Moving to a depth closes what is open above it and opens what is
missing below it, so one of the two parts of `markersTo` is always empty.
-/
namespace Offside

/-- A token as scanners make it: no marker, of a type that can be looked up, and its column an integer or unknown. -/
structure Token.IsScanned (t : Token) : Prop where
  unmarked : t.isMarker = false
  single : t.type.isSingle = true
  column : t.start.column = .null ∨ ∃ n : Int, t.start.column = .int n

theorem Token.isScanned_inColumn (type value : String) (column : Int) : (Token.inColumn type value column).IsScanned :=
  ⟨rfl, rfl, .inr ⟨column, rfl⟩⟩

/-- The columns to the left of a token, none where its column is unknown. -/
def Token.columnsBefore (t : Token) : Nat :=
  match t.start.column with
  | .int n => (n - 1).toNat
  | _ => 0

theorem Token.IsScanned.columnIndent_eq {t : Token} (h : t.IsScanned) :
    t.columnIndent = .ok (.int t.columnsBefore) := by
  rcases h.column with hc | ⟨n, hc⟩
  · simp [columnIndent_of_unknown hc, columnsBefore, hc]
  · rw [columnIndent_of_int hc, columnsBefore, hc]
    exact congrArg (fun i => Except.ok (Datum.int i)) (by dsimp only; omega)

/-- The marker that opens a level in front of a token: it stands where the token does, moved right by the indentation
of the level. -/
def Token.opening (kinds : Kinds) (unit : Nat) (t : Token) (level : Nat) : Token :=
  let column : Datum :=
    match t.start.column with
    | .int n => .int (n + level * unit)
    | column => column
  Token.markerAt kinds.indent (.int level) { t.start with column }

/-- The markers that open the levels up to a depth in front of a token, where some levels are open. -/
def openingsTo (kinds : Kinds) (unit depth : Nat) (opened : List Token) (content : Option Token) : List Token :=
  content.elim [] (fun t => (List.range' opened.length (depth - opened.length)).map (t.opening kinds unit))

/-- The markers that lead from some open levels to a depth: the closing ones from the deepest level on, or the opening
ones from the outermost on. -/
def markersTo (kinds : Kinds) (unit depth : Nat) (opened : List Token) (content : Option Token) : List Token :=
  (opened.take (opened.length - depth)).map kinds.closing ++ openingsTo kinds unit depth opened content

/-- The opening markers of the levels that are open at a depth, the deepest first. -/
def openedAt (kinds : Kinds) (unit depth : Nat) (opened : List Token) (content : Option Token) : List Token :=
  (openingsTo kinds unit depth opened content).reverse ++ opened.drop (opened.length - depth)

theorem forall_markersTo {p : Token → Prop} (kinds : Kinds) (unit depth : Nat) (opened : List Token)
    (content : Option Token) (hclosing : ∀ o ∈ opened, p (kinds.closing o))
    (hopening : ∀ t ∈ content, ∀ level, p (t.opening kinds unit level)) :
    ∀ m ∈ markersTo kinds unit depth opened content, p m := by
  intro m hm
  rcases List.mem_append.1 hm with hm | hm
  · obtain ⟨o, ho, rfl⟩ := List.mem_map.1 hm
    exact hclosing o (List.mem_of_mem_take ho)
  · cases content with
    | none => cases hm
    | some t =>
      obtain ⟨level, -, rfl⟩ := List.mem_map.1 hm
      exact hopening t rfl level

theorem forall_openedAt {p : Token → Prop} (kinds : Kinds) (unit depth : Nat) {opened : List Token}
    (content : Option Token) (hopened : ∀ o ∈ opened, p o)
    (hopening : ∀ t ∈ content, ∀ level, p (t.opening kinds unit level)) :
    ∀ m ∈ openedAt kinds unit depth opened content, p m := by
  intro m hm
  rcases List.mem_append.1 hm with hm | hm
  · cases content with
    | none => cases hm
    | some t =>
      obtain ⟨level, -, rfl⟩ := List.mem_map.1 (List.mem_reverse.1 hm)
      exact hopening t rfl level
  · exact hopened m (List.mem_of_mem_drop hm)

section
variable (kinds : Kinds) (unit : Nat) (opened : List Token)

@[simp]
theorem openingsTo_zero (content : Option Token) : openingsTo kinds unit 0 opened content = [] := by
  cases content <;> simp [openingsTo]

@[simp]
theorem markersTo_zero (content : Option Token) :
    markersTo kinds unit 0 opened content = opened.map kinds.closing := by
  simp [markersTo]

@[simp]
theorem openedAt_zero (content : Option Token) : openedAt kinds unit 0 opened content = [] := by
  simp [openedAt]

theorem length_openedAt_some (depth : Nat) (t : Token) :
    (openedAt kinds unit depth opened (some t)).length = depth := by
  simp only [openedAt, openingsTo, Option.elim_some, List.length_append, List.length_reverse, List.length_map,
    List.length_range', List.length_drop]
  omega

end

/-- The unit behind one more measured indentation. -/
def fixedBy (unit length : Nat) : Nat :=
  if unit = 0 then length else unit

@[simp]
theorem fixedBy_zero (unit : Nat) : fixedBy unit 0 = unit := by
  unfold fixedBy
  split <;> omega

/-- The unit, and the levels that some markers opened. -/
def Levels.counted (kinds : Kinds) (unit : Nat) (opened : List Token) : Levels :=
  ⟨.int unit, ⟨opened.map kinds.closing⟩⟩

namespace Levels

variable {kinds : Kinds}

theorem depth_counted (unit : Nat) (opened : List Token) : (counted kinds unit opened).depth = opened.length := by
  simp [counted, depth, Ledger.depth]

theorem closeAll_counted (unit : Nat) (opened : List Token) :
    (counted kinds unit opened).closeAll = (opened.map kinds.closing, counted kinds unit []) := rfl

theorem foldl_push (l : Ledger Token) (ms : List Token) : ms.foldl Ledger.push l = ⟨ms.reverse ++ l.pending⟩ := by
  induction ms generalizing l with
  | nil => rfl
  | cons m ms ih => simp [ih, Ledger.push]

theorem above_counted (unit : Nat) (opened : List Token) (depth : Nat) :
    (counted kinds unit opened).above depth =
      (List.range' opened.length (depth - opened.length)).map (fun (i : Nat) => (i : Int)) := by
  have hcount : ((depth : Int) - opened.length).toNat = depth - opened.length := by omega
  rw [above, depth_counted, List.range'_eq_map_range, List.map_map, hcount]
  refine List.map_congr_left fun i _ => ?_
  simp

theorem openEach_counted {t : Token} (ht : t.IsScanned) (unit : Nat) (opened : List Token) (levels : List Nat) :
    (counted kinds unit opened).openEach kinds (some t) (levels.map (fun (i : Nat) => (i : Int))) =
      (.ok (levels.map (t.opening kinds unit)),
        counted kinds unit ((levels.map (t.opening kinds unit)).reverse ++ opened)) := by
  -- the ledger gets the closing twin of each marker, in the order in which the markers come out
  have hledger {open' close : Int → Token} (ho : ∀ i : Nat, open' i = t.opening kinds unit i)
      (hc : ∀ i : Nat, close i = kinds.closing (t.opening kinds unit i)) :
      ((Except.ok ((levels.map (fun (i : Nat) => (i : Int))).map open') : Except Fault (List Token)),
        ({ counted kinds unit opened with
          ledger := ((levels.map (fun (i : Nat) => (i : Int))).map close).foldl Ledger.push
            (counted kinds unit opened).ledger } : Levels)) =
      (.ok (levels.map (t.opening kinds unit)),
        counted kinds unit ((levels.map (t.opening kinds unit)).reverse ++ opened)) := by
    rw [List.map_map, List.map_map, foldl_push,
      show open' ∘ (fun (i : Nat) => (i : Int)) = t.opening kinds unit from funext ho,
      show close ∘ (fun (i : Nat) => (i : Int)) = kinds.closing ∘ t.opening kinds unit from funext hc]
    simp [counted, List.map_reverse]
  rcases ht.column with hc | ⟨n, hc⟩
  · rw [openEach_unknown hc]
    have hopening (i : Nat) : Token.markerAt kinds.indent (.int i) t.start = t.opening kinds unit i := by
      obtain ⟨type, value, ⟨offset, line, column⟩, stop, level⟩ := t
      subst hc
      rfl
    exact hledger hopening fun i => by rw [← hopening]; rfl
  · rw [openEach_int hc kinds _ (show (counted kinds unit opened).unit = .int unit from rfl)]
    have hopening (i : Nat) : Token.markerAt kinds.indent (.int i) { t.start with column := .int (n + i * unit) } =
        t.opening kinds unit i := by
      obtain ⟨type, value, ⟨offset, line, column⟩, stop, level⟩ := t
      subst hc
      rfl
    exact hledger hopening fun i => by rw [← hopening]; rfl

theorem moveTo_counted (kinds : Kinds) {t : Token} (ht : t.IsScanned) (unit : Nat) (opened : List Token) (depth : Nat) :
    (counted kinds unit opened).moveTo kinds depth (some t) =
      (.ok (markersTo kinds unit depth opened (some t)),
        counted kinds unit (openedAt kinds unit depth opened (some t))) := by
  rw [moveTo, depth_counted]
  by_cases hd : (depth : Int) < opened.length
  · have h0 : depth - opened.length = 0 := by omega
    have hpop : (counted kinds unit opened).ledger.popTo depth =
        .ok ((opened.take (opened.length - depth)).map kinds.closing,
          ⟨(opened.drop (opened.length - depth)).map kinds.closing⟩) := by
      simp [Ledger.popTo, Ledger.depth, counted, List.map_take, List.map_drop]
    rw [if_pos hd, hpop]
    simp [markersTo, openedAt, openingsTo, h0, counted]
  · have h0 : opened.length - depth = 0 := by omega
    rw [if_neg hd, above_counted, openEach_counted ht]
    simp [markersTo, openedAt, openingsTo, h0]

/-- **The indentation of a counted line leads to the depth that is its quotient by the unit.**  The first indentation
other than zero fixes the unit, and from then on one that the unit does not divide is refused. -/
theorem reconcile_counted (kinds : Kinds) {t : Token} (ht : t.IsScanned) (unit : Nat) (opened : List Token)
    (length : Nat) : (counted kinds unit opened).reconcile kinds (.int length) (some t) =
      let fixed := fixedBy unit length
      if length % fixed = 0 then
        (.ok (markersTo kinds fixed (length / fixed) opened (some t)),
          counted kinds fixed (openedAt kinds fixed (length / fixed) opened (some t)))
      else (.error (.indent ⟨.int length, .int fixed, t.start.line, t.start.column⟩), counted kinds unit opened) := by
  rw [reconcile_int (show (counted kinds unit opened).unit = .int unit from rfl)]
  dsimp only
  by_cases hl : length = 0
  · subst hl
    simp [closeAll_counted]
  · rw [if_neg (by omega : ¬ (length : Int) = 0)]
    by_cases hu : unit = 0
    · subst hu
      have h := moveTo_counted kinds ht length opened 1
      have hdiv : (length : Int).fdiv length = (1 : Nat) := by
        rw [Int.fdiv_self (by omega)]
        rfl
      simp only [fixedBy, if_true, Nat.mod_self, Nat.div_self (Nat.pos_of_ne_zero hl), hdiv, Int.ofNat_zero]
      exact h
    · have hmod : (length : Int).fmod unit = ((length % unit : Nat) : Int) := by
        rw [Int.fmod_eq_emod_of_nonneg _ (by omega)]
        rfl
      have hdiv : (length : Int).fdiv unit = ((length / unit : Nat) : Int) := by
        rw [Int.fdiv_eq_ediv_of_nonneg _ (by omega)]
        rfl
      rw [if_neg (by omega : ¬ (unit : Int) = 0), fixedBy, if_neg hu, hmod, hdiv]
      by_cases hd : length % unit = 0
      · rw [if_pos hd, if_pos (by omega), moveTo_counted kinds ht]
      · rw [if_neg hd, if_neg (by omega)]
        rfl

end Levels
end Offside
