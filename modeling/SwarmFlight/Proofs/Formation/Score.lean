import Mathlib.Data.Sym.Sym2
import SwarmFlight.Proofs.Formation.Frames

/-!
# What a score depends on and what enters it

The score of a track follows from the position that counts of each agent at each instant
(`score_eq`) : the order of the records says nothing but which of several records of one agent at
one instant is the last one (`Reordered`), and a record with a later one of the same agent at the
same instant may as well be left out (`Trimmed`).

There is a score as soon as the leader and some other agent were recorded at one instant
(`HasFollower`). Every number in it is then accounted for, down to the recorded positions
(`Breakdown`). The speeds in it are those of agents between two sampled instants with none in
between (`Adjacent`, `Moves`), and the distances in the spacing of an instant are those of its
followers, each two of them taken once (`Pairing`). What is made of them are sums over counts
(`Averages`), added up in order of address and then in order of time; `score_parts` says so.
-/

namespace SwarmFlight

namespace Formation

/-- The same records in another order, in which those of one agent at one instant keep theirs. -/
def Reordered (records' records : List PositionRecord) : Prop :=
  ∀ time id, records'.filter (isOf time id) = records.filter (isOf time id)

/-- What is left of a track if some records are left out that another one takes the place of. -/
inductive Trimmed : List PositionRecord → List PositionRecord → Prop
  | nil : Trimmed [] []
  | keep {l' l : List PositionRecord} (r : PositionRecord) (h : Trimmed l' l) :
      Trimmed (r :: l') (r :: l)
  | drop {l' l : List PositionRecord} (r s : PositionRecord) (h : Trimmed l' l) (hs : s ∈ l)
      (hsame : isOf r.time r.id s) : Trimmed l' (r :: l)

/-- The leader was recorded at an instant at which some other agent was recorded too. -/
def HasFollower (records : List PositionRecord) (leader : Address) : Prop :=
  ∃ a ∈ records, ∃ b ∈ records, a.time = b.time ∧ a.id = leader ∧ b.id ≠ leader

/-- Two instants that something was recorded at, the second one at least a nanosecond after the
first one, and nothing was recorded in between. -/
structure Adjacent (records : List PositionRecord) (earlier later : Instant) : Prop where
  start : ∃ r ∈ records, r.time = earlier
  stop : ∃ r ∈ records, r.time = later
  lasts : 1 ≤ later.nanos - earlier.nanos
  between : ∀ r ∈ records, r.time ≤ earlier ∨ later ≤ r.time

/-- The instants that something was recorded at, in order. -/
structure Timeline (records : List PositionRecord) (times : List Instant) : Prop where
  ordered : times.Pairwise (· < ·)
  mem_iff : ∀ time, time ∈ times ↔ ∃ r ∈ records, r.time = time

/-- The agents other than the leader that were recorded at an instant, in order of address, with
their positions. -/
structure Followers (records : List PositionRecord) (leader : Address) (time : Instant)
    (followers : List (Address × Vec3)) : Prop where
  ordered : followers.Pairwise (·.1.raw < ·.1.raw)
  mem_iff : ∀ id p, (id, p) ∈ followers ↔
    id ≠ leader ∧ lastPosition? records time id = some p

/-- The pairs of two agents other than the leader that were recorded at an instant, with their
positions. Each two of them are paired once, the lower address first, and the pairs are in order of
their addresses. -/
structure Pairing (records : List PositionRecord) (leader : Address) (time : Instant)
    (pairs : List ((Address × Vec3) × (Address × Vec3))) : Prop where
  once : (pairs.map fun c => s(c.1.1, c.2.1)).Nodup
  mem_iff : ∀ a b, s(a, b) ∈ pairs.map (fun c => s(c.1.1, c.2.1)) ↔
    a ≠ b ∧ (a ≠ leader ∧ (lastPosition? records time a).isSome) ∧
      (b ≠ leader ∧ (lastPosition? records time b).isSome)
  positions : ∀ c ∈ pairs, lastPosition? records time c.1.1 = some c.1.2 ∧
    lastPosition? records time c.2.1 = some c.2.2
  lower : ∀ c ∈ pairs, c.1.1.raw < c.2.1.raw
  ordered : pairs.Pairwise fun c c' =>
    c.1.1.raw < c'.1.1.raw ∨ c.1.1 = c'.1.1 ∧ c.2.1.raw < c'.2.1.raw

/-- The moves of the agents that were recorded at both of two instants, in order of address : where
each of them was at the first and at the second instant. -/
structure Moves (records : List PositionRecord) (earlier later : Instant)
    (moves : List (Address × Vec3 × Vec3)) : Prop where
  ordered : moves.Pairwise (·.1.raw < ·.1.raw)
  mem_iff : ∀ id p q, (id, p, q) ∈ moves ↔
    lastPosition? records earlier id = some p ∧ lastPosition? records later id = some q

/-! ## What the numbers of a score are -/

/-- The distance between two places. -/
def apart (p q : Vec3) : Float :=
  ((q.x - p.x) * (q.x - p.x) + (q.y - p.y) * (q.y - p.y) + (q.z - p.z) * (q.z - p.z)).sqrt

/-- The seconds from an instant to a later one : the whole ones and the fraction. -/
def lapse (earlier later : Instant) : Float :=
  Float.ofNat ((later.nanos - earlier.nanos) / 1000000000) +
    Float.ofNat ((later.nanos - earlier.nanos) % 1000000000) / 1e9

/-- What some numbers are on average : their sum, added up in order, divided by how many they are,
and nothing if there are none. -/
def Averages (values : List Float) : Option Float → Prop
  | none => values = []
  | some m => values ≠ [] ∧ m = values.foldl (· + ·) 0.0 / Float.ofNat values.length

/-- How far some numbers are from their mean on average, zero if there are none. -/
def Deviates (values : List Float) (deviation : Float) : Prop :=
  values = [] ∧ deviation = 0.0 ∨
    ∃ centre, Averages values (some centre) ∧
      Averages (values.map fun v => (v - centre).abs) (some deviation)

/-- How far the followers are from the leader at an instant. Nothing is known without the leader, or
without a follower. -/
def LeaderDistance (records : List PositionRecord) (leader : Address) (time : Instant)
    (distance : Option Float) : Prop :=
  match lastPosition? records time leader with
  | some position => ∃ followers, Followers records leader time followers ∧
      Averages (followers.map fun f => apart f.2 position) distance
  | none => distance = none

/-- How far the followers are from each other at an instant. Nothing is known without the leader, or
without two followers. -/
def Spacing (records : List PositionRecord) (leader : Address) (time : Instant)
    (spacing : Option Float) : Prop :=
  match lastPosition? records time leader with
  | some _ => ∃ pairs, Pairing records leader time pairs ∧
      Averages (pairs.map fun c => apart c.1.2 c.2.2) spacing
  | none => spacing = none

/-- How fast the agents are from an instant to the next one. Nothing is known without an agent that
was recorded at both of them. -/
def Speed (records : List PositionRecord) (earlier later : Instant) (speed : Option Float) : Prop :=
  Adjacent records earlier later ∧ ∃ moves, Moves records earlier later moves ∧
    Averages (moves.map fun m => apart m.2.2 m.2.1 / lapse earlier later) speed

/-- What the score of a track with a leader is, sampled at some instants. Each of the three costs
leaves out the instants at which nothing is known of it. -/
structure Breakdown (weights : FormationWeights) (records : List PositionRecord) (leader : Address)
    (times : List Instant) (s : FormationScore) : Prop where
  leads : IsLeader records leader
  timeline : Timeline records times
  frames : s.frames = times.length
  leaderDistance : ∃ distances,
    List.Forall₂ (LeaderDistance records leader) times distances ∧
      Averages distances.reduceOption (some s.leaderDistance)
  spacing : ∃ spacings, List.Forall₂ (Spacing records leader) times spacings ∧
    Deviates spacings.reduceOption s.spacingDeviation
  speed : ∃ speeds, List.Forall₂ (fun x => Speed records x.1 x.2) (times.zip times.tail) speeds ∧
    ∃ average, Averages speeds.reduceOption average ∧ s.speed = average.getD 0.0
  total : s.total = weights.spacing * s.spacingDeviation +
    weights.leaderDistance * (weights.targetDistance - s.leaderDistance).abs +
    weights.speed * s.speed

variable {records records' : List PositionRecord} {r : PositionRecord} {f : Frame}
  {fs : List Frame} {leader id : Address} {time : Instant} {p : Vec3}
  {weights : FormationWeights} {s : FormationScore}

/-! ## What a score depends on -/

theorem lastPosition?_cons (r : PositionRecord) (records : List PositionRecord) (time : Instant)
    (id : Address) :
    lastPosition? (r :: records) time id =
      (lastPosition? records time id).or (if isOf time id r then some r.position else none) := by
  rw [lastPosition?, List.reverse_cons, List.find?_append, Option.map_or, List.find?_singleton]
  split <;> rfl

theorem Reordered.lastPosition?_eq (h : Reordered records' records) (time : Instant)
    (id : Address) : lastPosition? records' time id = lastPosition? records time id := by
  have hlast : ∀ l : List PositionRecord,
      l.reverse.find? (isOf time id) = (l.filter (isOf time id)).getLast? := fun l => by
    rw [← List.head?_filter, List.filter_reverse, List.head?_reverse]
  rw [lastPosition?, lastPosition?, hlast, hlast, h]

/-- Neighbours of different agents or instants may change places. -/
theorem Reordered.swap {a b : PositionRecord} (l : List PositionRecord)
    (hne : ¬ (b.time = a.time ∧ b.id = a.id)) : Reordered (b :: a :: l) (a :: b :: l) := by
  intro time id
  by_cases ha : isOf time id a
  · have hb : ¬ isOf time id b := fun hb =>
      hne ⟨(isOf_iff.1 hb).1.trans (isOf_iff.1 ha).1.symm,
        (isOf_iff.1 hb).2.trans (isOf_iff.1 ha).2.symm⟩
    rw [List.filter_cons_of_neg hb, List.filter_cons_of_pos ha, List.filter_cons_of_pos ha,
      List.filter_cons_of_neg hb]
  · rw [List.filter_cons_of_neg (l := b :: l) ha]
    simp only [List.filter_cons, if_neg ha]

theorem Trimmed.lastPosition?_eq (h : Trimmed records' records) (time : Instant) (id : Address) :
    lastPosition? records' time id = lastPosition? records time id := by
  induction h with
  | nil => rfl
  | keep r _ ih => rw [lastPosition?_cons, lastPosition?_cons, ih]
  | @drop l' l r s _ hs hsame ih =>
    rw [ih, lastPosition?_cons]
    split
    · rename_i hr
      -- the record that takes its place
      obtain ⟨rfl, rfl⟩ := isOf_iff.1 hr
      obtain ⟨p, hp⟩ := Option.isSome_iff_exists.1
        (isSome_lastPosition?_iff.2 ⟨s, hs, isOf_iff.1 hsame⟩)
      rw [hp]
      rfl
    · rw [Option.or_none]

section Congr

variable (h : ∀ time id, lastPosition? records' time id = lastPosition? records time id)

include h

theorem frames_congr : frames records' = frames records := by
  rw [frames, frames, latest_congr h]

theorem IsLeader.congr (hleader : IsLeader records leader) : IsLeader records' leader := by
  have hids : ∀ id, (∃ r ∈ records', r.id = id) ↔ ∃ r ∈ records, r.id = id := fun id => by
    simp only [exists_id_iff, h]
  refine ⟨(hids leader).2 hleader.recorded, fun r hr => ?_⟩
  obtain ⟨s, hs, hid⟩ := (hids r.id).1 ⟨r, hr, rfl⟩
  exact hid ▸ hleader.least s hs

theorem lowest_congr : lowest records' = lowest records :=
  Option.ext fun leader => by
    rw [lowest_eq_some_iff, lowest_eq_some_iff]
    exact ⟨IsLeader.congr fun time id => (h time id).symm, IsLeader.congr h⟩

/-- The score follows from the positions that count. -/
theorem score_congr (weights : FormationWeights) :
    score weights records' = score weights records := by
  rw [score, score, lowest_congr h, frames_congr h]

end Congr

/-- Two tracks have the same score if each agent has the same last position in both of them at each
instant. So it is if one track is the other one in another order, in which records of one agent at
one instant keep theirs, and if some records were left out that another one takes the place of. -/
theorem score_eq (weights : FormationWeights) (records' records : List PositionRecord)
    (h : (∀ time id, lastPosition? records' time id = lastPosition? records time id) ∨
      Reordered records' records ∨ Trimmed records' records) :
    score weights records' = score weights records := by
  rcases h with h | h | h
  · exact score_congr h weights
  · exact score_congr h.lastPosition?_eq weights
  · exact score_congr h.lastPosition?_eq weights

/-- A track of three agents, put down in no order. The first record was put right later. -/
def trio : List PositionRecord :=
  [⟨.zero, ⟨3⟩, ⟨9.0, 0.0, 0.0⟩⟩, ⟨⟨1000000000, by decide⟩, ⟨1⟩, ⟨0.0, 1.0, 0.0⟩⟩,
    ⟨.zero, ⟨3⟩, ⟨0.0, 4.0, 0.0⟩⟩, ⟨.zero, ⟨1⟩, .zero⟩, ⟨.zero, ⟨2⟩, ⟨3.0, 0.0, 0.0⟩⟩]

theorem score_eq_trio :
    score .usual trio.tail = score .usual trio ∧
      score .usual ((trio.take 2).reverse ++ trio.drop 2) = score .usual trio := by
  constructor
  · refine score_eq .usual trio.tail trio (.inr (.inr ?_))
    exact .drop _ ⟨.zero, ⟨3⟩, ⟨0.0, 4.0, 0.0⟩⟩ (.keep _ (.keep _ (.keep _ (.keep _ .nil))))
      (.tail _ List.mem_cons_self) (isOf_iff.2 ⟨rfl, rfl⟩)
  · exact score_eq .usual _ trio (.inr (.inl (.swap (trio.drop 2) (by decide))))

/-! ## When there is a score -/

/-- The agents of a frame other than the leader, with their positions. -/
def Frame.others (f : Frame) (leader : Address) : List (Address × Vec3) :=
  f.positions.filter (·.1 ≠ leader)

theorem mem_others (hids : f.positions.Pairwise (·.1.raw < ·.1.raw)) :
    (id, p) ∈ f.others leader ↔ id ≠ leader ∧ f.get? id = some p := by
  rw [Frame.others, List.mem_filter, decide_eq_true_iff, Frame.get?_eq_some_iff hids, and_comm]

theorem exists_mem_others_iff (hids : f.positions.Pairwise (·.1.raw < ·.1.raw)) :
    (∃ p, (id, p) ∈ f.others leader) ↔ id ≠ leader ∧ (f.get? id).isSome := by
  simp only [mem_others hids, exists_and_left, Option.isSome_iff_exists]

theorem others_ne_nil_iff (hids : f.positions.Pairwise (·.1.raw < ·.1.raw)) :
    f.others leader ≠ [] ↔ ∃ id, id ≠ leader ∧ (f.get? id).isSome := by
  simp only [← exists_mem_others_iff hids]
  constructor
  · intro h
    obtain ⟨⟨id, p⟩, hp⟩ := List.exists_mem_of_ne_nil _ h
    exact ⟨id, p, hp⟩
  · rintro ⟨id, p, hp⟩
    exact List.ne_nil_of_mem hp

/-- A frame has a distance from the leader if it holds the leader and another agent. -/
theorem isSome_leaderDistance?_iff (hids : f.positions.Pairwise (·.1.raw < ·.1.raw)) :
    (f.leaderDistance? leader).isSome ↔
      (f.get? leader).isSome ∧ ∃ id, id ≠ leader ∧ (f.get? id).isSome := by
  rw [← others_ne_nil_iff hids, Frame.leaderDistance?]
  cases f.get? leader with
  | none => simp
  | some position =>
    rw [Option.bind_eq_bind, Option.bind_some, isSome_mean_iff, Frame.followers, ne_eq,
      List.map_eq_nil_iff, List.map_eq_nil_iff]
    simp [Frame.others]

theorem hasFollower_iff :
    HasFollower records leader ↔ ∃ f ∈ frames records, (f.leaderDistance? leader).isSome := by
  constructor
  · rintro ⟨a, ha, b, hb, htime, rfl, hne⟩
    obtain ⟨f, hf, hft⟩ := exists_mem_frames_iff.2 ⟨a, ha, rfl⟩
    refine ⟨f, hf, (isSome_leaderDistance?_iff ((sequence_frames records).ids f hf)).2 ?_⟩
    simp only [get?_of_mem_frames hf, isSome_lastPosition?_iff, hft]
    exact ⟨⟨a, ha, rfl, rfl⟩, b.id, hne, b, hb, htime.symm, rfl⟩
  · rintro ⟨f, hf, hsome⟩
    rw [isSome_leaderDistance?_iff ((sequence_frames records).ids f hf)] at hsome
    simp only [get?_of_mem_frames hf, isSome_lastPosition?_iff] at hsome
    obtain ⟨⟨a, ha, htime, hid⟩, _, hne, b, hb, htime', rfl⟩ := hsome
    exact ⟨a, ha, b, hb, htime.trans htime'.symm, hid, hne⟩

/-- A track has no score if the leader was never recorded together with another agent. -/
theorem score_eq_none_iff :
    score weights records = none ↔
      ¬ ∃ leader, IsLeader records leader ∧ HasFollower records leader := by
  simp only [← lowest_eq_some_iff, hasFollower_iff]
  rw [score]
  cases lowest records with
  | none => simp
  | some leader =>
    have hmean : mean ((frames records).filterMap (Frame.leaderDistance? leader)) = none ↔
        ¬ ∃ f ∈ frames records, (f.leaderDistance? leader).isSome := by
      rw [← Option.not_isSome_iff_eq_none, isSome_mean_iff, not_not, List.filterMap_eq_nil_iff]
      simp
    simp only [Option.bind_eq_bind, Option.bind_some, Option.some.injEq, exists_eq_left', ← hmean]
    cases mean ((frames records).filterMap (Frame.leaderDistance? leader)) <;> simp

/-! ## Speeds -/

theorem exists_append_of_mem_steps {x : Frame × Frame} (h : x ∈ steps fs) :
    ∃ before after, fs = before ++ x.1 :: x.2 :: after := by
  induction fs with
  | nil => exact absurd h List.not_mem_nil
  | cons f fs ih =>
    cases fs with
    | nil => exact absurd h List.not_mem_nil
    | cons g fs =>
      rcases List.mem_cons.1 h with rfl | h
      · exact ⟨[], fs, rfl⟩
      · obtain ⟨before, after, heq⟩ := ih h
        exact ⟨f :: before, after, congrArg (f :: ·) heq⟩

theorem mem_of_mem_steps {x : Frame × Frame} (h : x ∈ steps fs) : x.1 ∈ fs ∧ x.2 ∈ fs := by
  obtain ⟨before, after, rfl⟩ := exists_append_of_mem_steps h
  constructor <;> simp

theorem adjacent_of_mem_steps {x : Frame × Frame} (h : x ∈ steps (frames records)) :
    Adjacent records x.1.time x.2.time := by
  obtain ⟨hstart, hstop⟩ := mem_of_mem_steps h
  obtain ⟨before, after, heq⟩ := exists_append_of_mem_steps h
  have htimes := (sequence_frames records).times
  rw [heq, List.pairwise_append, List.pairwise_cons, List.pairwise_cons] at htimes
  obtain ⟨-, ⟨hfirst, hsecond, -⟩, hbefore⟩ := htimes
  have hlt : x.1.time < x.2.time := hfirst _ List.mem_cons_self
  refine ⟨exists_mem_frames_iff.1 ⟨x.1, hstart, rfl⟩, exists_mem_frames_iff.1 ⟨x.2, hstop, rfl⟩,
    Nat.sub_pos_of_lt hlt, fun r hr => ?_⟩
  obtain ⟨f, hf, htime⟩ := exists_mem_frames_iff.2 ⟨r, hr, rfl⟩
  rw [heq, List.mem_append, List.mem_cons, List.mem_cons] at hf
  rw [← htime]
  rcases hf with hf | rfl | rfl | hf
  · exact .inl (Nat.le_of_lt (hbefore f hf _ List.mem_cons_self))
  · exact .inl (Nat.le_refl _)
  · exact .inr (Nat.le_refl _)
  · exact .inr (Nat.le_of_lt (hsecond f hf))

/-- The agents that two frames hold both, with their positions in the first and in the second. -/
def shared (before after : Frame) : List (Address × Vec3 × Vec3) :=
  after.positions.filterMap fun (id, q) => (before.get? id).map fun p => (id, p, q)

theorem speeds_eq (before after : Frame) :
    speeds before after = (shared before after).map fun m =>
      apart m.2.2 m.2.1 / lapse before.time after.time := by
  rw [speeds, shared, List.map_filterMap]
  simp only [Option.map_map]
  rfl

theorem moves_shared {before after : Frame} (hbefore : before ∈ frames records)
    (hafter : after ∈ frames records) :
    Moves records before.time after.time (shared before after) := by
  have hids := (sequence_frames records).ids after hafter
  refine ⟨hids.filterMap _ ?_, fun id p q => ?_⟩
  · rintro ⟨id, q⟩ ⟨id', q'⟩ hlt m hm m' hm'
    obtain ⟨p, -, rfl⟩ := Option.map_eq_some_iff.1 hm
    obtain ⟨p', -, rfl⟩ := Option.map_eq_some_iff.1 hm'
    exact hlt
  · rw [← get?_of_mem_frames hbefore, ← get?_of_mem_frames hafter, Frame.get?_eq_some_iff hids,
      shared, List.mem_filterMap]
    constructor
    · rintro ⟨⟨id', q'⟩, hmem, hm⟩
      obtain ⟨p', hp, heq⟩ := Option.map_eq_some_iff.1 hm
      cases heq
      exact ⟨hp, hmem⟩
    · rintro ⟨hp, hmem⟩
      exact ⟨(id, q), hmem, congrArg (Option.map fun p => (id, p, q)) hp⟩

/-! ## Distances between followers -/

theorem distanceTo_eq (p q : Vec3) : p.distanceTo q = apart p q := rfl

/-- The pairs of two members of a list, the earlier one first. -/
def couples {α : Type} : List α → List (α × α)
  | [] => []
  | a :: rest => rest.map (a, ·) ++ couples rest

section Couples

variable {α β : Type} {l : List α} {x y : α}

theorem mem_of_mem_couples {c : α × α} (h : c ∈ couples l) : c.1 ∈ l ∧ c.2 ∈ l := by
  induction l with
  | nil => exact absurd h List.not_mem_nil
  | cons a l ih =>
    rcases List.mem_append.1 h with h | h
    · obtain ⟨b, hb, rfl⟩ := List.mem_map.1 h
      exact ⟨List.mem_cons_self, List.mem_cons_of_mem _ hb⟩
    · exact (ih h).imp (List.mem_cons_of_mem _) (List.mem_cons_of_mem _)

theorem rel_of_mem_couples {R : α → α → Prop} (hl : l.Pairwise R) {c : α × α}
    (h : c ∈ couples l) : R c.1 c.2 := by
  induction hl with
  | nil => exact absurd h List.not_mem_nil
  | cons ha _ ih =>
    rcases List.mem_append.1 h with h | h
    · obtain ⟨b, hb, rfl⟩ := List.mem_map.1 h
      exact ha b hb
    · exact ih h

/-- The pairs of an ordered list are in order of what is paired first, and then of what is paired
with it. -/
theorem pairwise_couples {R : α → α → Prop} (hl : l.Pairwise R) :
    (couples l).Pairwise fun c c' => R c.1 c'.1 ∨ c.1 = c'.1 ∧ R c.2 c'.2 := by
  induction hl with
  | nil => exact .nil
  | @cons a l ha hl ih =>
    refine List.pairwise_append.2 ⟨List.pairwise_map.2 (hl.imp fun hb => .inr ⟨rfl, hb⟩), ih, ?_⟩
    intro c hc c' hc'
    obtain ⟨b, -, rfl⟩ := List.mem_map.1 hc
    exact .inl (ha _ (mem_of_mem_couples hc').1)

theorem couples_map (g : α → β) (l : List α) :
    couples (l.map g) = (couples l).map (Prod.map g g) := by
  induction l with
  | nil => rfl
  | cons a l ih => simp [couples, ih]

/-- Each two members are paired. -/
theorem mem_couples_iff (h : l.Nodup) :
    s(x, y) ∈ (couples l).map (fun c => s(c.1, c.2)) ↔ x ≠ y ∧ x ∈ l ∧ y ∈ l := by
  induction l with
  | nil => simp [couples]
  | cons a l ih =>
    obtain ⟨ha, hl⟩ := List.nodup_cons.1 h
    rw [couples, List.map_append, List.mem_append, ih hl, List.map_map, List.mem_map]
    simp only [Function.comp_apply, Sym2.eq_iff, List.mem_cons]
    grind

/-- None is paired with another one twice. -/
theorem nodup_couples (h : l.Nodup) : ((couples l).map fun c => s(c.1, c.2)).Nodup := by
  induction l with
  | nil => exact .nil
  | cons a l ih =>
    obtain ⟨ha, hl⟩ := List.nodup_cons.1 h
    rw [couples, List.map_append, List.map_map, List.nodup_append]
    refine ⟨hl.map fun b c hbc => Sym2.congr_right.1 hbc, ih hl, ?_⟩
    rintro _ hb _ hc rfl
    obtain ⟨b, -, hb⟩ := List.mem_map.1 hb
    exact ha ((mem_couples_iff hl).1 (hb ▸ hc)).2.1

end Couples

theorem pairDistances_map_snd (l : List (Address × Vec3)) :
    pairDistances (l.map Prod.snd) = (couples l).map fun c => apart c.1.2 c.2.2 := by
  induction l with
  | nil => rfl
  | cons a l ih => simp [couples, pairDistances, ih, distanceTo_eq]

theorem pairing_couples (hf : f ∈ frames records) (leader : Address) :
    Pairing records leader f.time (couples (f.others leader)) := by
  have hids := (sequence_frames records).ids f hf
  have hothers : (f.others leader).Pairwise (·.1.raw < ·.1.raw) := hids.filter _
  have hnodup : ((f.others leader).map Prod.fst).Nodup :=
    List.pairwise_map.2 (hothers.imp fun hlt => mt (congrArg Address.raw) (UInt32.ne_of_lt hlt))
  have hends : ((couples (f.others leader)).map fun c => s(c.1.1, c.2.1)) =
      (couples ((f.others leader).map Prod.fst)).map fun c => s(c.1, c.2) := by
    rw [couples_map, List.map_map]
    rfl
  have hmem : ∀ a, a ∈ (f.others leader).map Prod.fst ↔
      a ≠ leader ∧ (lastPosition? records f.time a).isSome := fun a => by
    rw [← get?_of_mem_frames hf, ← exists_mem_others_iff hids, List.mem_map, Prod.exists]
    simp
  refine ⟨hends ▸ nodup_couples hnodup, fun a b => ?_, fun c hc => ?_,
    fun c hc => rel_of_mem_couples hothers hc, (pairwise_couples hothers).imp fun h => ?_⟩
  · rw [hends, mem_couples_iff hnodup, hmem, hmem]
  · rw [← get?_of_mem_frames hf, ← get?_of_mem_frames hf]
    exact (mem_of_mem_couples hc).imp (fun h => ((mem_others hids).1 h).2)
      fun h => ((mem_others hids).1 h).2
  · exact h.imp_right (And.imp_left (congrArg Prod.fst))

/-! ## The numbers of a score -/

theorem averages_mean (values : List Float) : Averages values (mean values) := by
  cases values with
  | nil => rfl
  | cons v values => exact ⟨List.cons_ne_nil _ _, rfl⟩

theorem averages_of_mean {values : List Float} {m : Option Float} (h : mean values = m) :
    Averages values m := h ▸ averages_mean values

theorem deviates_meanDeviation (values : List Float) :
    Deviates values ((meanDeviation values).getD 0.0) := by
  have hcentre := averages_mean values
  rw [meanDeviation]
  cases hmean : mean values with
  | none =>
    rw [hmean] at hcentre
    exact .inl ⟨hcentre, rfl⟩
  | some centre =>
    rw [hmean] at hcentre
    have hmap : values.map (fun v => (v - centre).abs) ≠ [] := mt List.map_eq_nil_iff.1 hcentre.1
    obtain ⟨deviation, hdeviation⟩ := Option.isSome_iff_exists.1 (isSome_mean_iff.2 hmap)
    refine .inr ⟨centre, hcentre, ?_⟩
    rw [Option.bind_eq_bind, Option.bind_some, hdeviation]
    exact averages_of_mean hdeviation

theorem leaderDistance_frame (hf : f ∈ frames records) (leader : Address) :
    LeaderDistance records leader f.time (f.leaderDistance? leader) := by
  have hids := (sequence_frames records).ids f hf
  rw [LeaderDistance, Frame.leaderDistance?, get?_of_mem_frames hf]
  cases lastPosition? records f.time leader with
  | none => rfl
  | some position =>
    refine ⟨f.others leader, ⟨hids.filter _, fun id p => ?_⟩, averages_of_mean ?_⟩
    · rw [mem_others hids, get?_of_mem_frames hf]
    · rw [Option.bind_eq_bind, Option.bind_some, Frame.followers, List.map_map]
      rfl

theorem spacing_frame (hf : f ∈ frames records) (leader : Address) :
    Spacing records leader f.time (f.spacing? leader) := by
  rw [Spacing, Frame.spacing?, get?_of_mem_frames hf]
  cases lastPosition? records f.time leader with
  | none => rfl
  | some position =>
    refine ⟨_, pairing_couples hf leader, averages_of_mean ?_⟩
    rw [← pairDistances_map_snd]
    rfl

theorem speed_steps {x : Frame × Frame} (hx : x ∈ steps (frames records)) :
    Speed records x.1.time x.2.time (speed? x.1 x.2) := by
  obtain ⟨hstart, hstop⟩ := mem_of_mem_steps hx
  refine ⟨adjacent_of_mem_steps hx, _, moves_shared hstart hstop, averages_of_mean ?_⟩
  rw [speed?, speeds_eq]

/-! ## The score -/

theorem timeline_frames (records : List PositionRecord) :
    Timeline records ((frames records).map Frame.time) := by
  refine ⟨List.pairwise_map.2 (sequence_frames records).times, fun time => ?_⟩
  rw [List.mem_map]
  exact exists_mem_frames_iff

theorem steps_map_time (fs : List Frame) :
    (steps fs).map (fun x => (x.1.time, x.2.time)) =
      (fs.map Frame.time).zip (fs.map Frame.time).tail := by
  rw [steps, ← List.map_tail, List.zip_map]
  rfl

/-- What is made of each member of a list, where something is. -/
theorem exists_forall₂_reduceOption {α β γ : Type} {R : β → Option γ → Prop} (key : α → β)
    {g : α → Option γ} {l : List α} (h : ∀ a ∈ l, R (key a) (g a)) :
    ∃ made, List.Forall₂ R (l.map key) made ∧ made.reduceOption = l.filterMap g := by
  refine ⟨l.map g, ?_, List.filterMap_map⟩
  rw [List.forall₂_map_left_iff, List.forall₂_map_right_iff, List.forall₂_same]
  exact h

theorem breakdown_of_score (h : score weights records = some s) :
    ∃ leader times, Breakdown weights records leader times s := by
  obtain ⟨leader, hleader, h⟩ := Option.bind_eq_some_iff.1 h
  obtain ⟨d, hd, h⟩ := Option.bind_eq_some_iff.1 h
  cases h
  obtain ⟨distances, hdistances, hdistance⟩ := exists_forall₂_reduceOption
    (R := LeaderDistance records leader) Frame.time fun f hf => leaderDistance_frame hf leader
  obtain ⟨spacings, hspacings, hspacing⟩ := exists_forall₂_reduceOption
    (R := Spacing records leader) Frame.time fun f hf => spacing_frame hf leader
  obtain ⟨speeds, hspeeds, hspeed⟩ := exists_forall₂_reduceOption
    (R := fun x => Speed records x.1 x.2) (fun x : Frame × Frame => (x.1.time, x.2.time))
    fun x hx => speed_steps hx
  rw [steps_map_time] at hspeeds
  exact ⟨leader, _, lowest_eq_some_iff.1 hleader, timeline_frames records, (List.length_map _).symm,
    ⟨distances, hdistances, averages_of_mean (hdistance ▸ hd)⟩,
    ⟨spacings, hspacings, hspacing ▸ deviates_meanDeviation _⟩,
    ⟨speeds, hspeeds, _, hspeed ▸ averages_mean _, rfl⟩, rfl⟩

/-- A track has no score exactly if its leader was never recorded together with another agent. In
a score, each speed is that of one agent between two sampled instants with none in between, each
two followers of an instant at which the leader was recorded give one distance, and nothing else
enters the means of which it consists. -/
theorem score_parts (weights : FormationWeights) (records : List PositionRecord) :
    (score weights records = none ↔
      ¬ ∃ leader, IsLeader records leader ∧ HasFollower records leader) ∧
    ∀ s, score weights records = some s →
      ∃ leader times, Breakdown weights records leader times s :=
  ⟨score_eq_none_iff, fun _ => breakdown_of_score⟩

theorem score_parts_trio :
    ∃ s leader times, score .usual trio = some s ∧ Breakdown .usual trio leader times s := by
  have hleader : IsLeader trio ⟨1⟩ := ⟨⟨⟨.zero, ⟨1⟩, .zero⟩, by simp [trio], rfl⟩, by decide⟩
  have hfollower : HasFollower trio ⟨1⟩ :=
    ⟨⟨.zero, ⟨1⟩, .zero⟩, by simp [trio], ⟨.zero, ⟨2⟩, ⟨3.0, 0.0, 0.0⟩⟩, by simp [trio], rfl, rfl,
      by decide⟩
  have hsome : score .usual trio ≠ none := fun h =>
    (score_parts .usual trio).1.1 h ⟨_, hleader, hfollower⟩
  obtain ⟨s, hs⟩ := Option.ne_none_iff_exists'.1 hsome
  obtain ⟨leader, times, h⟩ := (score_parts .usual trio).2 s hs
  exact ⟨s, leader, times, hs, h⟩

end Formation

end SwarmFlight
