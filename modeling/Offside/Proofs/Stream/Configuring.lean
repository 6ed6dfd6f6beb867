import Offside.Proofs.Stream.Endings
import Offside.Session
/-!
# Learning the token types

A stream that is made from option values has yet to learn its token types, and until it has, nothing comes of it: every
request is refused, types that cannot be told apart are refused too, and neither the stream nor its source is any
different afterwards (`trace_unconfigured`).  The first types that it accepts make it the stream that a configuration
of the same option values makes (`configure_unconfigured`), and from then on it refuses all others
(`use_configure_again`).  So a stream that learns its types late lives as one that is made with them
(`configured_once`).
-/
namespace Offside

/-! ## Uses -/

/-- What a stream can be used for: it is called, or it shows its configuration, or the tokens that it holds back. -/
inductive Use where
  | call (c : Call)
  | config
  | buffer
deriving DecidableEq

/-- What comes of a use. -/
inductive View where
  | answer (a : Answer)
  | config (cfg : Option Config)
  | buffer (ts : List Token)
deriving DecidableEq

namespace Use

/-- Whether a use tells a stream its token types. -/
def isConfigure : Use → Bool
  | .call (.configure ..) => true
  | _ => false

/-- What comes of the use of a stream that has no token types. -/
def unconfigured : Use → View
  | .call (.configure indent dedent newline) =>
    match Kinds.ofData indent dedent newline with
    | .ok _ => .answer .configured
    | .error e => .answer (.raised (.config e))
  | .call c => .answer (c.answerTo (.fault (.config .notConfigured)))
  | .config => .config none
  | .buffer => .buffer []

end Use

namespace Flow

def use (x : Flow) : Use → View × Flow
  | .call c => (.answer (x.call c).1, (x.call c).2)
  | .config => (.config x.stream.config, x)
  | .buffer => (.buffer x.stream.buffer, x)

/-- Some uses one after another, each with what comes of it and the flow behind it. -/
def trace (x : Flow) : List Use → List (Use × View × Flow)
  | [] => []
  | u :: uses => (u, x.use u) :: (x.use u).2.trace uses

/-- The flow behind some uses. -/
def used (x : Flow) (uses : List Use) : Flow :=
  uses.foldl (fun x u => (x.use u).2) x

end Flow

/-! ## Streams that have no token types -/

section
variable {policy : Policy} {whitespace : List TokenType} {unit : Nat} {source : Source}

theorem drain_unconfigured : (Stream.unconfigured policy whitespace unit).drain source =
    ⟨[], some (.config .notConfigured), .unconfigured policy whitespace unit, source, []⟩ :=
  Stream.drain_of_not_token nofun

/-- Types that are accepted make a stream the one that a configuration makes. -/
theorem configure_unconfigured (indent dedent newline : Datum) :
    (Stream.unconfigured policy whitespace unit).configure indent dedent newline =
      (Kinds.ofData indent dedent newline).map (fun kinds => .ofConfig ⟨kinds, whitespace, policy, unit⟩) := by
  show (Kinds.ofData indent dedent newline >>= _) = _
  cases Kinds.ofData indent dedent newline <;> rfl

/-- **What is refused for want of token types changes nothing.** -/
theorem use_unconfigured {u : Use} (h : u.unconfigured ≠ .answer .configured) :
    let x : Flow := ⟨.unconfigured policy whitespace unit, source⟩
    x.use u = (u.unconfigured, x) := by
  intro x
  cases u with
  | config | buffer => rfl
  | call c =>
    cases c with
    | next | iterate => rfl
    | list =>
      have hd : x.stream.drain x.rest = _ := drain_unconfigured
      simp only [Flow.use, Flow.call, hd]
      rfl
    | configure indent dedent newline =>
      have hc : x.stream.configure indent dedent newline = _ := configure_unconfigured indent dedent newline
      simp only [Use.unconfigured] at h ⊢
      simp only [Flow.use, Flow.call, hc]
      cases hk : Kinds.ofData indent dedent newline with
      | ok kinds => exact absurd (by rw [hk]) h
      | error e => rfl

theorem trace_unconfigured {before : List Use} (h : ∀ u ∈ before, u.unconfigured ≠ .answer .configured)
    (later : List Use) :
    let x : Flow := ⟨.unconfigured policy whitespace unit, source⟩
    x.trace (before ++ later) = before.map (fun u => (u, u.unconfigured, x)) ++ x.trace later := by
  intro x
  induction before with
  | nil => rfl
  | cons u before ih =>
    obtain ⟨hu, hbefore⟩ := List.forall_mem_cons.1 h
    rw [List.cons_append, Flow.trace, use_unconfigured hu, ih hbefore]
    rfl

/-- With the types that it accepts, the stream is made anew at the same place of its source. -/
theorem use_configure {indent dedent newline : Datum} {kinds : Kinds}
    (hk : Kinds.ofData indent dedent newline = .ok kinds) :
    (Flow.mk (.unconfigured policy whitespace unit) source).use (.call (.configure indent dedent newline)) =
      (.answer .configured, ⟨.ofConfig ⟨kinds, whitespace, policy, unit⟩, source⟩) := by
  have hc : (Stream.unconfigured policy whitespace unit).configure indent dedent newline = _ :=
    configure_unconfigured indent dedent newline
  rw [hk] at hc
  simp only [Flow.use, Flow.call, hc]
  rfl

/-- A use that such a stream does not refuse tells it types that it accepts. -/
theorem exists_kinds_of_unconfigured {u : Use} (h : u.unconfigured = .answer .configured) :
    ∃ indent dedent newline kinds, u = .call (.configure indent dedent newline) ∧
      Kinds.ofData indent dedent newline = .ok kinds := by
  cases u with
  | config | buffer => cases h
  | call c =>
    cases c with
    | next | iterate | list => cases h
    | configure indent dedent newline =>
      simp only [Use.unconfigured] at h
      cases hk : Kinds.ofData indent dedent newline with
      | ok kinds => exact ⟨indent, dedent, newline, kinds, rfl, hk⟩
      | error e =>
        rw [hk] at h
        cases h

end

/-- Option values that make a stream make a configuration with any types that are accepted. -/
theorem exists_of_ofData {policy whitespace unit : Datum} {s : Stream}
    (h : Stream.ofData policy whitespace unit = .ok s) :
    ∃ p ws n, s = .unconfigured p ws n ∧ ∀ {indent dedent newline kinds},
      Kinds.ofData indent dedent newline = .ok kinds →
        Config.ofData indent dedent newline whitespace policy unit = .ok ⟨kinds, ws, p, n⟩ := by
  obtain ⟨p, hp, h⟩ := exists_of_bind h
  obtain ⟨ws, hw, h⟩ := exists_of_bind h
  obtain ⟨n, hn, h⟩ := exists_of_bind h
  cases h
  refine ⟨p, ws, n, rfl, fun hk => ?_⟩
  unfold Config.ofData
  rw [hw, hp, hk, hn]
  rfl

/-! ## Types that are refused -/

namespace Kinds

variable {indent dedent newline : TokenType}

theorem ofData_of_empty (h : ¬ (indent.isSet ∧ dedent.isSet ∧ newline.isSet)) :
    ofData indent.toDatum dedent.toDatum newline.toDatum = .error .emptyType := by
  unfold ofData
  rw [if_neg (by simpa [TokenType.isSet] using h)]

/-- Types that can be looked up are accepted or refused for being empty or the same. -/
theorem ofData_eq_make (hset : indent.isSet ∧ dedent.isSet ∧ newline.isSet)
    (hsingle : indent.isSingle ∧ dedent.isSingle ∧ newline.isSingle) :
    ofData indent.toDatum dedent.toDatum newline.toDatum = make indent dedent newline := by
  obtain ⟨hi, hd, hn⟩ := hsingle
  unfold ofData
  rw [if_pos (by simpa [TokenType.isSet, and_assoc] using hset)]
  simp only [TokenType.ofDatum_toDatum, TokenType.single, hi, hd, hn, if_true]
  rfl

/-- Types of which one cannot be looked up are refused for that. -/
theorem ofData_of_not_single (hset : indent.isSet ∧ dedent.isSet ∧ newline.isSet)
    (hsingle : ¬ (indent.isSingle ∧ dedent.isSingle ∧ newline.isSingle)) :
    ∃ e, ofData indent.toDatum dedent.toDatum newline.toDatum = .error (.kind e) := by
  unfold ofData
  rw [if_pos (by simpa [TokenType.isSet, and_assoc] using hset)]
  simp only [TokenType.ofDatum_toDatum, TokenType.single]
  cases hi : indent.isSingle with
  | false => exact ⟨_, rfl⟩
  | true =>
    cases hd : dedent.isSingle with
    | false => exact ⟨_, rfl⟩
    | true =>
      cases hn : newline.isSingle with
      | false => exact ⟨_, rfl⟩
      | true => exact absurd ⟨hi, hd, hn⟩ hsingle

end Kinds

/-! ## Streams that have their types -/

section
variable {cfg : Config} {x : Flow}

theorem config_use (h : x.stream.config = some cfg) (u : Use) : (x.use u).2.stream.config = some cfg := by
  cases u with
  | config | buffer => exact h
  | call c =>
    have hx : x.Serves cfg x.rest := ⟨h, List.suffix_refl x.rest⟩
    exact (hx.after [c]).config

theorem config_used (h : x.stream.config = some cfg) (uses : List Use) :
    (x.used uses).stream.config = some cfg := by
  induction uses generalizing x with
  | nil => exact h
  | cons u uses ih => exact ih (config_use h u)

/-- A stream that has its types refuses others, and is not changed by them. -/
theorem use_configure_again (h : x.stream.config = some cfg) {u : Use} (hu : u.isConfigure = true) :
    x.use u = (.answer (.raised (.config .alreadyConfigured)), x) := by
  cases u with
  | config | buffer => cases hu
  | call c =>
    cases c with
    | next | iterate | list => cases hu
    | configure indent dedent newline => simp only [Flow.use, Flow.call, Stream.configure, h]

/-- Its other uses come to the same whether or not it is told types in between. -/
theorem trace_filter (uses : List Use) : ∀ {x : Flow}, x.stream.config = some cfg →
    (x.trace uses).filter (fun r => !r.1.isConfigure) = x.trace (uses.filter (fun u => !u.isConfigure)) := by
  induction uses with
  | nil => exact fun _ => rfl
  | cons u uses ih =>
    intro x h
    rw [Flow.trace, List.filter_cons, List.filter_cons, ih (config_use h u)]
    cases hu : u.isConfigure with
    | true => rw [use_configure_again h hu]; rfl
    | false => rfl

end

namespace Flow

/-- **A stream learns its token types once.**  Let it be made from option values and used in any way.  Until types are
accepted, every request is refused for want of them, types are refused where one stands for nothing, two are the same
or one cannot be looked up, and the stream and its source stay as they are.  If types are accepted, the stream behind
is the one that a session makes whose configuration is of the same option values.  From then on types are refused and
change nothing, and all other uses, one after another, come to what they come to in that stream without these
refusals. -/
theorem configured_once {policy whitespace unit : Datum} {s : Stream}
    (hs : Stream.ofData policy whitespace unit = .ok s) (source : Source) (uses : List Use) :
    let x : Flow := ⟨s, source⟩
    ((∀ u ∈ uses, u.unconfigured ≠ .answer .configured) ∧
        x.trace uses = uses.map (fun u => (u, u.unconfigured, x)) ∨
      ∃ before indent dedent newline later cfg stream,
        uses = before ++ .call (.configure indent dedent newline) :: later ∧
        (∀ u ∈ before, u.unconfigured ≠ .answer .configured) ∧
        Config.ofData indent dedent newline whitespace policy unit = .ok cfg ∧
        ((Session.mk cfg []).make (.own source)).streams = [(stream, .own source)] ∧
        let y : Flow := ⟨stream, source⟩
        x.trace uses = before.map (fun u => (u, u.unconfigured, x)) ++
          (.call (.configure indent dedent newline), .answer .configured, y) :: y.trace later ∧
        (∀ front u back, later = front ++ u :: back → u.isConfigure = true →
          (y.used front).use u = (.answer (.raised (.config .alreadyConfigured)), y.used front)) ∧
        (y.trace later).filter (fun r => !r.1.isConfigure) = y.trace (later.filter (fun u => !u.isConfigure))) ∧
    ∀ indent dedent newline : TokenType,
      let view := Use.unconfigured (.call (.configure indent.toDatum dedent.toDatum newline.toDatum))
      (¬ (indent.isSet ∧ dedent.isSet ∧ newline.isSet) → view = .answer (.raised (.config .emptyType))) ∧
      (indent.isSet ∧ dedent.isSet ∧ newline.isSet → indent.isSingle ∧ dedent.isSingle ∧ newline.isSingle →
        if indent.key ≠ dedent.key ∧ indent.key ≠ newline.key ∧ dedent.key ≠ newline.key then
          view = .answer .configured
        else view = .answer (.raised (.config (.equalTypes indent dedent newline)))) ∧
      (indent.isSet ∧ dedent.isSet ∧ newline.isSet → ¬ (indent.isSingle ∧ dedent.isSingle ∧ newline.isSingle) →
        ∃ e, view = .answer (.raised (.config (.kind e)))) := by
  obtain ⟨p, ws, n, rfl, hconfig⟩ := exists_of_ofData hs
  intro x
  refine ⟨?_, fun indent dedent newline =>
    ⟨fun hset => ?_, fun hset hsingle => ?_, fun hset hsingle => ?_⟩⟩
  · cases hfind : uses.find? (fun u => u.unconfigured = .answer .configured) with
    | none =>
      have hrefused : ∀ u ∈ uses, u.unconfigured ≠ .answer .configured := by simpa using hfind
      have htrace : x.trace (uses ++ []) = _ := trace_unconfigured hrefused []
      rw [List.append_nil, trace, List.append_nil] at htrace
      exact .inl ⟨hrefused, htrace⟩
    | some u =>
      obtain ⟨haccepted, before, later, rfl, hbefore⟩ := List.find?_eq_some_iff_append.1 hfind
      have hrefused : ∀ u ∈ before, u.unconfigured ≠ .answer .configured := by simpa using hbefore
      obtain ⟨indent, dedent, newline, kinds, rfl, hk⟩ := exists_kinds_of_unconfigured (of_decide_eq_true haccepted)
      refine .inr ⟨before, indent, dedent, newline, later, _, _, rfl, hrefused, hconfig hk, rfl, ?_,
        fun front v back _ hv => use_configure_again (config_used rfl front) hv, trace_filter later rfl⟩
      have htrace (uses : List Use) : x.trace (before ++ uses) = _ := trace_unconfigured hrefused uses
      rw [htrace, trace, use_configure hk]
  · simp only [Use.unconfigured, Kinds.ofData_of_empty hset]
  · simp only [Use.unconfigured, Kinds.ofData_eq_make hset hsingle, Kinds.make, dif_pos hset]
    by_cases hd : indent.key ≠ dedent.key ∧ indent.key ≠ newline.key ∧ dedent.key ≠ newline.key
    · rw [if_pos hd, dif_pos hd]
    · rw [if_neg hd, dif_neg hd]
  · obtain ⟨e, he⟩ := Kinds.ofData_of_not_single hset hsingle
    exact ⟨e, by simp only [Use.unconfigured, he]⟩

/-- A stream that is asked too early, then told a type that stands for nothing, and later its types, twice. -/
theorem configured_once_late :
    let types : Use := .call (.configure (.text "INDENT") (.text "DEDENT") (.text "NL"))
    let before : List Use := [.call .list, .call (.configure (.text "INDENT") (.text "") (.text "NL"))]
    let later : List Use := [.call .next, types, .call .list]
    let x : Flow := ⟨.unconfigured .before [.name "WS"] 2, interruptedSource⟩
    let y : Flow := ⟨.ofConfig (wordConfig .before 2), interruptedSource⟩
    Stream.ofData (.text "before") (.list [.text "WS"]) (.int 2) = .ok x.stream ∧
      x.trace (before ++ types :: later) =
        before.map (fun u => (u, u.unconfigured, x)) ++ (types, .answer .configured, y) :: y.trace later ∧
      (y.trace later).filter (fun r => !r.1.isConfigure) = y.trace [.call .next, .call .list] := by
  intro types before later x y
  have hs : Stream.ofData (.text "before") (.list [.text "WS"]) (.int 2) = .ok x.stream := by decide +kernel
  have haccepted : types.unconfigured = .answer .configured := by decide +kernel
  obtain ⟨hrefused | ⟨front, indent, dedent, newline, back, cfg, stream, hsplit, hfront, hcfg, hmake, htrace, -, hskip⟩,
    -⟩ := configured_once hs interruptedSource (before ++ types :: later)
  · exact absurd haccepted (hrefused.1 types (by simp))
  · -- the types that are accepted are the third use
    rcases front with _ | ⟨u, _ | ⟨v, _ | ⟨w, front⟩⟩⟩
    · cases hsplit
    · cases hsplit
      cases hcfg
    · obtain ⟨hbefore, hlast⟩ := List.append_inj hsplit rfl
      obtain ⟨htypes, rfl⟩ := List.cons.inj hlast
      obtain ⟨rfl, rfl, rfl⟩ := Call.configure.inj (Use.call.inj htypes)
      obtain rfl : wordConfig .before 2 = cfg := Except.ok.inj (by rw [← hcfg]; decide +kernel)
      cases hmake
      rw [← hbefore] at htrace
      exact ⟨hs, htrace, hskip⟩
    · have hsplit : before ++ types :: later = [u, v] ++ w :: (front ++ _ :: back) := hsplit
      obtain ⟨-, hlast⟩ := List.append_inj hsplit rfl
      obtain ⟨rfl, -⟩ := List.cons.inj hlast
      exact absurd haccepted (hfront types (by simp))

end Flow
end Offside
