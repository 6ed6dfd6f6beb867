import Offside.Outline.Document
import Offside.Proofs.Stream.Nesting
import Offside.Session
/-!
# Streams of a session

The streams of a session do not know of one another, unless one is the source of another.  Let `K` pick some streams
such that a stream is picked if and only if its source is.  What a session is to these streams is a smaller session
(`Session.only`): the same streams, renumbered.  A step of the session either is a step of the smaller one or leaves it
as it is (`perform_only`, `perform_apart`), so a run of the session is, for these streams, the run of their own steps
(`run_only`).
-/
namespace Offside

/-! ## Picking from a list -/

/-- How many numbers before a number are picked. -/
def rank (K : Nat → Bool) : Nat → Nat
  | 0 => 0
  | i + 1 => if K 0 then rank (fun n => K (n + 1)) i + 1 else rank (fun n => K (n + 1)) i

/-- The elements of a list whose places are picked. -/
def pick {α : Type} (K : Nat → Bool) : List α → List α
  | [] => []
  | x :: xs => if K 0 then x :: pick (fun n => K (n + 1)) xs else pick (fun n => K (n + 1)) xs

section
variable {α : Type} (K : Nat → Bool)

theorem rank_mono {i j : Nat} (h : i ≤ j) : rank K i ≤ rank K j := by
  induction i generalizing K j with
  | zero => exact Nat.zero_le _
  | succ i ih =>
    obtain ⟨j, rfl⟩ : ∃ j', j = j' + 1 := ⟨j - 1, by omega⟩
    have := ih (fun n => K (n + 1)) (Nat.le_of_succ_le_succ h)
    unfold rank
    split <;> omega

theorem rank_lt {i j : Nat} (hi : K i = true) (h : i < j) : rank K i < rank K j := by
  induction i generalizing K j with
  | zero =>
    obtain ⟨j, rfl⟩ : ∃ j', j = j' + 1 := ⟨j - 1, by omega⟩
    rw [rank, rank, if_pos hi]
    omega
  | succ i ih =>
    obtain ⟨j, rfl⟩ : ∃ j', j = j' + 1 := ⟨j - 1, by omega⟩
    have := ih (fun n => K (n + 1)) hi (Nat.lt_of_succ_lt_succ h)
    unfold rank
    split <;> omega

theorem rank_lt_rank {i j : Nat} (hi : K i = true) : rank K i < rank K j ↔ i < j :=
  ⟨fun h => Nat.lt_of_not_le fun hle => Nat.not_lt_of_le (rank_mono K hle) h, rank_lt K hi⟩

theorem getElem?_pick {i : Nat} (hi : K i = true) (xs : List α) : (pick K xs)[rank K i]? = xs[i]? := by
  induction xs generalizing K i with
  | nil => rfl
  | cons x xs ih =>
    cases i with
    | zero => rw [pick, if_pos hi]; rfl
    | succ i =>
      rw [pick, rank]
      split <;> exact ih (fun n => K (n + 1)) hi

theorem pick_set {i : Nat} (hi : K i = true) (xs : List α) (x : α) :
    pick K (xs.set i x) = (pick K xs).set (rank K i) x := by
  induction xs generalizing K i with
  | nil => rfl
  | cons y xs ih =>
    cases i with
    | zero => rw [List.set_cons_zero, pick, pick, if_pos hi, if_pos hi]; rfl
    | succ i =>
      rw [List.set_cons_succ, pick, pick, rank]
      split
      · exact congrArg (y :: ·) (ih (fun n => K (n + 1)) hi)
      · exact ih (fun n => K (n + 1)) hi

theorem pick_set_apart {i : Nat} (hi : K i = false) (xs : List α) (x : α) : pick K (xs.set i x) = pick K xs := by
  induction xs generalizing K i with
  | nil => rfl
  | cons y xs ih =>
    cases i with
    | zero => rw [List.set_cons_zero, pick, pick, hi, if_neg Bool.false_ne_true, if_neg Bool.false_ne_true]
    | succ i => rw [List.set_cons_succ, pick, pick, ih (fun n => K (n + 1)) hi]

theorem pick_concat (xs : List α) (x : α) :
    pick K (xs ++ [x]) = if K xs.length then pick K xs ++ [x] else pick K xs := by
  induction xs generalizing K with
  | nil => rfl
  | cons y xs ih =>
    rw [List.cons_append, pick, pick, ih, List.length_cons]
    split <;> split <;> rfl

end

/-! ## Steps of a session -/

/-- A step of a session: a stream is made, asked for a token, or asked for all it has. -/
inductive Action where
  | make (feed : Feed)
  | next (index : Nat)
  | list (index : Nat)

/-- What comes of a step, with the levels and the unit of its stream behind it. -/
inductive Outcome where
  | made
  | reply (r : Reply) (levels : Nat × Datum)
  | listed (tokens : List Token) (fault : Option Fault) (levels : Nat × Datum)

def Drained.outcome (d : Drained) : Outcome :=
  .listed d.tokens d.fault (d.stream.levels.depth, d.stream.levels.unit)

/-- The outline that a parser makes of what comes of a step. -/
def Outcome.forest? : Outcome → Option (Except Failure (Forest Token))
  | .listed tokens fault _ => some (Outline.read tokens fault)
  | _ => none

/-- The stream that a step is about, where so many streams are made. -/
def Action.subject (made : Nat) : Action → Nat
  | .make _ => made
  | .next index => index
  | .list index => index

/-- How many streams are made behind a step. -/
def Action.count (made : Nat) : Action → Nat
  | .make _ => made + 1
  | _ => made

/-- The stream that a stream takes its tokens from, if it takes them from one. -/
def Feed.upstream? : Feed → Option Nat
  | .own _ => none
  | .stream below => some below

def Feed.renumber (K : Nat → Bool) : Feed → Feed
  | .own source => .own source
  | .stream index => .stream (rank K index)

/-- The same step where only the streams picked are made. -/
def Action.renumber (K : Nat → Bool) : Action → Action
  | .make feed => .make (feed.renumber K)
  | .next index => .next (rank K index)
  | .list index => .list (rank K index)

/-- The steps that are about the streams picked, where so many streams are made in front of them. -/
def Action.only (K : Nat → Bool) (made : Nat) : List Action → List Action
  | [] => []
  | a :: actions =>
    if K (a.subject made) then a.renumber K :: only K (a.count made) actions else only K (a.count made) actions

/-- Whether a stream made over another is picked exactly if that one is. -/
def Action.Keeps (K : Nat → Bool) (made : Nat) : List Action → Prop
  | [] => True
  | a :: actions => (∀ below, a = .make (.stream below) → K made = K below) ∧ Keeps K (a.count made) actions

namespace Session

def perform (s : Session) : Action → Outcome × Session
  | .make feed => (.made, s.make feed)
  | .next index =>
    let r := s.next index
    (.reply r.1 (r.2.levels index), r.2)
  | .list index =>
    let r := s.drain index
    (.listed r.1 r.2.1 (r.2.2.levels index), r.2.2)

/-- What comes of some steps, each with the stream that it is about. -/
def outcomes (s : Session) : List Action → List (Nat × Outcome)
  | [] => []
  | a :: actions => (a.subject s.streams.length, (s.perform a).1) :: (s.perform a).2.outcomes actions

def after (s : Session) (actions : List Action) : Session :=
  actions.foldl (fun s a => (s.perform a).2) s

/-- What comes of the steps that are about the streams picked. -/
def resultsOf (K : Nat → Bool) (s : Session) (actions : List Action) : List Outcome :=
  ((s.outcomes actions).filter (fun r => K r.1)).map Prod.snd

/-- What a session is to the streams picked. -/
def only (K : Nat → Bool) (s : Session) : Session :=
  { s with streams := (pick K s.streams).map (fun p => (p.1, p.2.renumber K)) }

/-! ## What a session is to the streams picked -/

/-- The streams that the streams of a session take their tokens from. -/
def upstreams (s : Session) : List (Option Nat) :=
  s.streams.map (fun p => p.2.upstream?)

/-- Whether a stream over another is picked exactly if that one is. -/
def Keeps (K : Nat → Bool) (s : Session) : Prop :=
  ∀ i below, s.upstreams[i]? = some (some below) → K i = K below

section
variable {K : Nat → Bool} {s : Session} {i : Nat}

theorem getElem?_only (hi : K i = true) :
    (s.only K).streams[rank K i]? = s.streams[i]?.map (fun p => (p.1, p.2.renumber K)) := by
  rw [only, List.getElem?_map, getElem?_pick K hi]

theorem only_put (hi : K i = true) (stream : Stream) (feed : Feed) :
    (s.put i stream feed).only K = (s.only K).put (rank K i) stream (feed.renumber K) := by
  simp only [only, put, pick_set K hi, List.map_set]

theorem only_put_apart (hi : K i = false) (stream : Stream) (feed : Feed) : (s.put i stream feed).only K = s.only K := by
  simp only [only, put, pick_set_apart K hi]

theorem only_make (feed : Feed) : (s.make feed).only K =
    if K s.streams.length then (s.only K).make (feed.renumber K) else s.only K := by
  unfold only make
  rw [pick_concat]
  split
  · rw [List.map_append]
    rfl
  · rfl

theorem levels_only (hi : K i = true) : (s.only K).levels (rank K i) = s.levels i := by
  unfold levels
  rw [getElem?_only hi]
  cases s.streams[i]? <;> rfl

theorem upstream_of_getElem? {stream : Stream} {below : Nat} (h : s.streams[i]? = some (stream, .stream below)) :
    s.upstreams[i]? = some (some below) := by
  rw [upstreams, List.getElem?_map, h]
  rfl

/-- What a stream replies shows nothing of the streams that are not picked, if it is picked itself.  The recursion is
that of the replies: a stream over another one is picked with it. -/
theorem replies_only (h : s.Keeps K) (hi : K i = true) :
    (s.only K).replies (rank K i) = (s.replies i).map (fun r => (r.1, r.2.only K)) := by
  induction i using Nat.strongRecOn with
  | ind i ih =>
    rw [replies, replies, getElem?_only hi]
    match hs : s.streams[i]? with
    | none => rfl
    | some (stream, .own source) =>
      simp only [Option.map_some, Feed.renumber, List.map_map]
      refine List.map_congr_left fun step _ => ?_
      simp only [Function.comp_apply, only_put hi]
      rfl
    | some (stream, .stream below) =>
      have hbelow : K below = true := (h i below (upstream_of_getElem? hs)).symm.trans hi
      simp only [Option.map_some, Feed.renumber, rank_lt_rank K hbelow]
      by_cases hb : below < i
      · rw [if_pos hb, if_pos hb, ih below hb hbelow]
        simp only [List.map_map]
        refine List.map_congr_left fun step _ => ?_
        -- behind the replies taken from below, the session is to those picked what it was to be
        have hafter (source : List (Reply × Session)) (n : Nat) :
            ((source.map (fun r => (r.1, r.2.only K))).take n).getLast?.elim (s.only K) Prod.snd =
              ((source.take n).getLast?.elim s Prod.snd).only K := by
          rw [← List.map_take, List.getLast?_map]
          cases (source.take n).getLast? <;> rfl
        simp only [Function.comp_apply, List.length_map, hafter, only_put hi]
        rfl
      · rw [if_neg hb, if_neg hb]
        rfl

/-- What holds of a session, and outlives that one of some streams is put back over the source that it has, holds behind
each reply of these streams, if their sources are among them. -/
theorem replies_induction {P : Session → Prop} {D : Nat → Prop} (hs : P s)
    (hD : ∀ i below, s.upstreams[i]? = some (some below) → D i → D below)
    (hput : ∀ i s' stream feed, D i → s.upstreams[i]? = some feed.upstream? → P s' → P (s'.put i stream feed))
    (hi : D i) : ∀ r ∈ s.replies i, P r.2 := by
  induction i using Nat.strongRecOn with
  | ind i ih =>
    intro r hr
    rw [replies] at hr
    split at hr
    · cases hr
    · rename_i stream source heq
      obtain ⟨step, -, rfl⟩ := List.mem_map.1 hr
      refine hput i s step.stream _ hi ?_ hs
      rw [upstreams, List.getElem?_map, heq]
      rfl
    · rename_i stream below heq
      have hup : s.upstreams[i]? = some (some below) := upstream_of_getElem? heq
      split at hr
      · rename_i hb
        obtain ⟨step, -, rfl⟩ := List.mem_map.1 hr
        refine hput i _ step.stream _ hi hup ?_
        -- the session behind the last reply taken from below, or the session as it was
        cases hlast : ((s.replies below).take ((s.replies below).length - step.rest.length)).getLast? with
        | none => exact hs
        | some r => exact ih below hb (hD i below hup hi) r (List.mem_of_mem_take (List.mem_of_getLast? hlast))
      · cases hr

/-- What a stream that is not picked replies changes nothing for those that are. -/
theorem replies_apart (h : s.Keeps K) (hi : K i = false) : ∀ r ∈ s.replies i, r.2.only K = s.only K := by
  refine replies_induction (P := fun s' => s'.only K = s.only K) (D := fun i => K i = false) rfl ?_ ?_ hi
  · exact fun i below hup hi => (h i below hup).symm.trans hi
  · exact fun i s' stream feed hi _ hs' => (only_put_apart hi stream feed).trans hs'

/-- Nor does it change the configuration, or which streams there are and what they take their tokens from. -/
theorem replies_shape : ∀ r ∈ s.replies i, r.2.config = s.config ∧ r.2.upstreams = s.upstreams := by
  refine replies_induction (P := fun s' => s'.config = s.config ∧ s'.upstreams = s.upstreams) (D := fun _ => True)
    ⟨rfl, rfl⟩ (fun _ _ _ _ => trivial) ?_ trivial
  rintro i s' stream feed - hup ⟨hconfig, hupstreams⟩
  refine ⟨hconfig, Eq.trans ?_ hupstreams⟩
  rw [← hupstreams] at hup
  obtain ⟨hlt, hget⟩ := List.getElem?_eq_some_iff.1 hup
  rw [put, upstreams, List.map_set, ← hget]
  exact List.set_getElem_self hlt

end

/-! ## Runs of a session -/

section
variable {K : Nat → Bool} {s : Session}

theorem next_mem (s : Session) (i : Nat) : s.next i = (.done, s) ∨ s.next i ∈ s.replies i := by
  unfold next
  cases h : (s.replies i).head? with
  | none => exact .inl rfl
  | some r => exact .inr (List.mem_of_mem_head? h)

theorem drain_mem (s : Session) (i : Nat) : (s.drain i).2.2 = s ∨ ∃ r ∈ s.replies i, (s.drain i).2.2 = r.2 := by
  show (s.replies i).getLast?.elim s Prod.snd = s ∨ ∃ r ∈ s.replies i, (s.replies i).getLast?.elim s Prod.snd = r.2
  cases h : (s.replies i).getLast? with
  | none => exact .inl rfl
  | some r => exact .inr ⟨r, List.mem_of_getLast? h, rfl⟩

/-- **A step that is about a stream picked is a step of the session of these streams.** -/
theorem perform_only (h : s.Keeps K) {a : Action} (ha : K (a.subject s.streams.length) = true) :
    (s.only K).perform (a.renumber K) = ((s.perform a).1, (s.perform a).2.only K) := by
  cases a with
  | make feed =>
    have hmake := only_make (K := K) (s := s) feed
    have ha : K s.streams.length = true := ha
    rw [if_pos ha] at hmake
    simp only [Action.renumber, perform, hmake]
  | next i =>
    have hi : K i = true := ha
    have hnext : (s.only K).next (rank K i) = ((s.next i).1, (s.next i).2.only K) := by
      rw [next, replies_only h hi, List.head?_map, next]
      cases (s.replies i).head? <;> rfl
    simp only [Action.renumber, perform, hnext, levels_only hi]
  | list i =>
    have hi : K i = true := ha
    have hlist : (s.only K).drain (rank K i) = ((s.drain i).1, (s.drain i).2.1, (s.drain i).2.2.only K) := by
      rw [drain, replies_only h hi, List.getLast?_map, List.filterMap_map, drain]
      cases (s.replies i).getLast? <;> rfl
    simp only [Action.renumber, perform, hlist, levels_only hi]

/-- **A step that is about another stream changes nothing for the streams picked.** -/
theorem perform_apart (h : s.Keeps K) {a : Action} (ha : K (a.subject s.streams.length) = false) :
    (s.perform a).2.only K = s.only K := by
  cases a with
  | make feed =>
    have hmake := only_make (K := K) (s := s) feed
    have ha : K s.streams.length = false := ha
    rwa [ha, if_neg Bool.false_ne_true] at hmake
  | next i =>
    rcases next_mem s i with hn | hn
    · simp only [perform, hn]
    · exact replies_apart h ha _ hn
  | list i =>
    rcases drain_mem s i with hd | ⟨r, hr, hd⟩
    · simp only [perform, hd]
    · simp only [perform, hd]
      exact replies_apart h ha r hr

/-- What a step does to the configuration, and to which streams there are. -/
theorem perform_shape (s : Session) (a : Action) : (s.perform a).2.config = s.config ∧
    (s.perform a).2.upstreams =
      s.upstreams ++ (match a with | .make feed => [feed.upstream?] | _ => []) := by
  cases a with
  | make feed =>
    refine ⟨rfl, ?_⟩
    simp [perform, make, upstreams]
  | next i =>
    rw [List.append_nil]
    rcases next_mem s i with hn | hn
    · simp only [perform, hn, and_self]
    · exact replies_shape _ hn
  | list i =>
    rw [List.append_nil]
    rcases drain_mem s i with hd | ⟨r, hr, hd⟩
    · simp only [perform, hd, and_self]
    · simp only [perform, hd]
      exact replies_shape r hr

theorem length_upstreams (s : Session) : s.upstreams.length = s.streams.length :=
  List.length_map _

theorem length_perform (s : Session) (a : Action) :
    (s.perform a).2.streams.length = a.count s.streams.length := by
  rw [← length_upstreams, (perform_shape s a).2, List.length_append, length_upstreams]
  cases a <;> rfl

theorem Keeps.perform (h : s.Keeps K) {a : Action}
    (ha : ∀ below, a = .make (.stream below) → K s.streams.length = K below) : (s.perform a).2.Keeps K := by
  intro i below hi
  rw [(perform_shape s a).2] at hi
  by_cases hlt : i < s.upstreams.length
  · rw [List.getElem?_append_left hlt] at hi
    exact h i below hi
  · rw [List.getElem?_append_right (Nat.le_of_not_lt hlt)] at hi
    cases a with
    | make feed =>
      -- the one stream behind those there are is the stream made
      obtain ⟨hzero, hfeed⟩ := List.getElem?_eq_some_iff.1 hi
      rw [List.getElem_singleton] at hfeed
      have hlast : i = s.streams.length := by
        have hzero : i - s.upstreams.length < 1 := hzero
        rw [length_upstreams] at hlt hzero
        omega
      cases feed with
      | own source => cases hfeed
      | stream j =>
        cases hfeed
        rw [hlast]
        exact ha below rfl
    | next | list => cases hi

theorem resultsOf_cons (K : Nat → Bool) (s : Session) (a : Action) (actions : List Action) :
    s.resultsOf K (a :: actions) =
      if K (a.subject s.streams.length) then (s.perform a).1 :: (s.perform a).2.resultsOf K actions
      else (s.perform a).2.resultsOf K actions := by
  rw [resultsOf, outcomes, List.filter_cons]
  split <;> rfl

/-- **For the streams picked, a run of a session is the run of their own steps** in the session of these streams.  The
induction is on the steps; of two runs that have come equally far, one is always the other one's `only`. -/
theorem run_only (actions : List Action) : ∀ {s : Session}, s.Keeps K → Action.Keeps K s.streams.length actions →
    let own := Action.only K s.streams.length actions
    s.resultsOf K actions = ((s.only K).outcomes own).map Prod.snd ∧ (s.after actions).only K = (s.only K).after own := by
  induction actions with
  | nil => exact fun _ _ => ⟨rfl, rfl⟩
  | cons a actions ih =>
    rintro s h ⟨ha, hactions⟩
    rw [← length_perform] at hactions
    obtain ⟨houtcomes, hafter⟩ := ih (h.perform ha) hactions
    rw [length_perform] at houtcomes hafter
    cases hk : K (a.subject s.streams.length) with
    | true =>
      have hstep := perform_only h hk
      have hown : Action.only K s.streams.length (a :: actions) =
          a.renumber K :: Action.only K (a.count s.streams.length) actions := by rw [Action.only, if_pos hk]
      rw [hown]
      refine ⟨?_, ?_⟩
      · rw [resultsOf_cons, if_pos hk, outcomes, List.map_cons, hstep]
        exact congrArg _ houtcomes
      · rw [after, after, List.foldl_cons, List.foldl_cons, hstep]
        exact hafter
    | false =>
      have hstep := perform_apart h hk
      have hown : Action.only K s.streams.length (a :: actions) =
          Action.only K (a.count s.streams.length) actions := by
        rw [Action.only, hk, if_neg Bool.false_ne_true]
      rw [hown, ← hstep]
      refine ⟨?_, hafter⟩
      rw [resultsOf_cons, hk, if_neg Bool.false_ne_true]
      exact houtcomes

theorem keeps_of_own (K : Nat → Bool) : ∀ {actions : List Action} (made : Nat),
    (∀ feed, .make feed ∈ actions → ∃ source, feed = .own source) → Action.Keeps K made actions
  | [], _, _ => trivial
  | a :: actions, made, h => by
    refine ⟨?_, keeps_of_own K _ fun feed hfeed => h feed (List.mem_cons_of_mem a hfeed)⟩
    rintro below rfl
    obtain ⟨source, hsource⟩ := h (.stream below) List.mem_cons_self
    cases hsource

theorem config_after (s : Session) (actions : List Action) : (s.after actions).config = s.config := by
  induction actions generalizing s with
  | nil => rfl
  | cons a actions ih => exact (ih (s.perform a).2).trans (perform_shape s a).1

end

/-! ## Texts one after another -/

/-- A scanner reads some texts one after another, each for a stream of its own that is then asked for all it has. -/
def readEach (sc : Scanner) (made : Nat) : List String → List Action
  | [] => []
  | text :: texts => .make (.own (sc.scan text)) :: .list made :: readEach sc (made + 1) texts

theorem drain_own {s : Session} {i : Nat} {stream : Stream} {source : Source}
    (h : s.streams[i]? = some (stream, .own source)) :
    s.drain i =
      let d := stream.drain source
      (d.tokens, d.fault, s.put i d.stream (.own d.rest)) := by
  have hreplies : s.replies i =
      (stream.steps source).map (fun step => (step.reply, s.put i step.stream (.own step.rest))) := by
    rw [replies, h]
  obtain ⟨last, hlast⟩ := Option.ne_none_iff_exists'.1
    (fun hn => Stream.steps_ne_nil stream source (List.getLast?_eq_none_iff.1 hn))
  simp only [drain, Stream.drain, hreplies, List.filterMap_map, List.getLast?_map, hlast]
  rfl

theorem outcomes_readEach (sc : Scanner) (texts : List String) : ∀ s : Session,
    (s.outcomes (readEach sc s.streams.length texts)).map Prod.snd =
      texts.flatMap (fun text => [.made, ((Stream.ofConfig s.config).drain (sc.scan text)).outcome]) := by
  induction texts with
  | nil => exact fun _ => rfl
  | cons text texts ih =>
    intro s
    let s' := s.make (.own (sc.scan text))
    have hlt : s.streams.length < s'.streams.length := by simp [s', make]
    have hlast : s'.streams[s.streams.length]? = some (.ofConfig s.config, .own (sc.scan text)) := by
      simp [s', make]
    have hdrain := drain_own hlast
    have hperform : s'.perform (.list s.streams.length) =
        (((Stream.ofConfig s.config).drain (sc.scan text)).outcome, (s'.drain s.streams.length).2.2) := by
      simp only [perform, hdrain, levels, put, List.getElem?_set_self hlt]
      rfl
    have hrest := ih (s'.perform (.list s.streams.length)).2
    rw [length_perform, (perform_shape s' _).1] at hrest
    have hlength : Action.count s'.streams.length (.list s.streams.length) = s.streams.length + 1 := by
      simp [Action.count, s', make]
    rw [hlength] at hrest
    rw [readEach, outcomes, outcomes, List.map_cons, List.map_cons, List.flatMap_cons]
    show Outcome.made :: (s'.perform (.list s.streams.length)).1 ::
      ((s'.perform (.list s.streams.length)).2.outcomes (readEach sc (s.streams.length + 1) texts)).map Prod.snd = _
    rw [hrest, hperform]
    rfl

/-- **The streams of a session do not influence one another**, whatever is done with them in which order, whether they
end or fail or are left half read.  If a stream is picked exactly if its source is, what comes of the steps about the
streams picked is what comes of these steps alone, in a session of these streams alone, and that session is left behind.
Streams with sources of their own can be picked one by one.  The configuration never changes.  So a scanner or an
outline parser gives for each of some texts what it gives for that text alone. -/
theorem streams_apart (cfg : Config) (actions : List Action) :
    let fresh : Session := ⟨cfg, []⟩
    (∀ K, Action.Keeps K 0 actions →
      fresh.resultsOf K actions = (fresh.outcomes (Action.only K 0 actions)).map Prod.snd ∧
        (fresh.after actions).only K = fresh.after (Action.only K 0 actions)) ∧
    ((∀ feed, .make feed ∈ actions → ∃ source, feed = .own source) → ∀ i,
      fresh.resultsOf (· == i) actions = (fresh.outcomes (Action.only (· == i) 0 actions)).map Prod.snd) ∧
    (∀ n, (fresh.after (actions.take n)).config = cfg) ∧
    (∀ (policy : Policy) (unit : Nat) (v : Variant) (texts : List String),
      ((Session.mk (wordConfig policy unit) []).outcomes (readEach v.scanner 0 texts)).map Prod.snd =
        texts.flatMap (fun text => [.made, (drainText (wordConfig policy unit) v text).outcome])) ∧
    ∀ (unit : Nat) (texts : List String),
      ((Session.mk (Outline.config unit) []).outcomes (readEach Outline.scanner 0 texts)).filterMap
          (fun r => r.2.forest?) =
        texts.map (fun text => Outline.parseLines text unit) := by
  intro fresh
  have hfresh (K : Nat → Bool) : fresh.Keeps K := by
    intro i below h
    cases h
  have hrun (K : Nat → Bool) (hK : Action.Keeps K 0 actions) := run_only actions (hfresh K) hK
  refine ⟨hrun, fun hown i => (hrun _ (keeps_of_own _ 0 hown)).1, fun n => config_after fresh _, ?_, ?_⟩
  · exact fun policy unit v texts => outcomes_readEach v.scanner texts ⟨wordConfig policy unit, []⟩
  · intro unit texts
    have heach : ((Session.mk (Outline.config unit) []).outcomes (readEach Outline.scanner 0 texts)).map Prod.snd =
        texts.flatMap (fun text => [.made, (Outline.drainText unit text).outcome]) :=
      outcomes_readEach Outline.scanner texts ⟨Outline.config unit, []⟩
    have hmap (os : List (Nat × Outcome)) :
        os.filterMap (fun r => r.2.forest?) = (os.map Prod.snd).filterMap Outcome.forest? := by
      rw [List.filterMap_map]
      rfl
    rw [hmap, heach, List.filterMap_flatMap, List.map_eq_flatMap]
    rfl

/-- A stream over another that is asked in between, next to a stream that fails and one that is left half read. -/
def entangled : List Action :=
  [.make (.own interruptedSource), .make (.own [.fault (.source "lost")]), .next 0, .make (.stream 0), .list 1, .next 2,
    .make (.own [.token (.inColumn "WORD" "a" 1)]), .next 3, .next 0, .list 2, .list 1]

theorem streams_apart_entangled :
    let picked (i : Nat) : Bool := i == 0 || i == 2
    let fresh : Session := ⟨wordConfig .before 2, []⟩
    Action.Keeps picked 0 entangled ∧
      fresh.resultsOf picked entangled =
        (fresh.outcomes [.make (.own interruptedSource), .next 0, .make (.stream 0), .next 1, .next 0,
          .list 1]).map Prod.snd := by
  intro picked fresh
  have hkeeps : Action.Keeps picked 0 entangled := by simp [entangled, Action.Keeps, Action.count, picked]
  exact ⟨hkeeps, ((streams_apart (wordConfig .before 2) entangled).1 picked hkeeps).1⟩

end Session
end Offside
