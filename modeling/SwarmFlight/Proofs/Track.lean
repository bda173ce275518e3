import SwarmFlight.Track
import SwarmFlight.Proofs.Number.Clock

/-!
# What pruning leaves as it is

A track is asked for two things : to add a waypoint and to prune. `Agrees now t u` says that
two tracks end in the same waypoint and have the same positions from `now` on. Additions
keep it (`Agrees.add`), because a new waypoint changes positions only by the last one
before it, and a prune up to `now` of one of the two keeps it (`Agrees.prune`). So a run of
requests with its prunes left out gives the same answers, and the same positions from the
latest prune on (`prune_invisible`).

`positionAt_of_partition` and `prune_of_partition` say what the two walks along a track find
in it : the segment around the point where a search for the first later waypoint ends, and
what is left when waypoints are dropped from the old end up to that segment. Every track
that requests lead to has such a point (`run_ordered`, `exists_positionAt_run`).
-/

namespace SwarmFlight

namespace Track

variable {t t' u u' : Track} {w : Waypoint} {now time : Instant}

/-! ## The point of a search -/

/-- In order of time, newest first. -/
def Ordered (t : Track) : Prop := t.waypoints.Pairwise fun a b => b.time ≤ a.time

/-- The position between the newest waypoint that has passed and the oldest that has not. -/
def segment (now : Instant) : Option Waypoint → Option Waypoint → Vec3
  | none, none => Vec3.zero
  | none, some next => next.position
  | some last, none => last.position
  | some last, some next =>
    if next.time.sub last.time = .zero then next.position else between last next now

theorem segment_some {a b : Waypoint} (ha : a.time ≤ now) (hb : now < b.time) :
    segment now (some a) (some b) = between a b now := by
  refine if_neg fun h => ?_
  have h0 : b.time.nanos - a.time.nanos = 0 := congrArg Duration.nanos h
  rw [Duration.le_def] at ha
  rw [Duration.lt_def] at hb
  omega

theorem positionBefore_of_partition {later passed : List Waypoint} {next : Waypoint}
    (hn : now < next.time) (hl : ∀ w ∈ later, now < w.time) (hp : ∀ w ∈ passed, w.time ≤ now) :
    positionBefore now next (later ++ passed) =
      segment now passed.head? ((next :: later).getLast?) := by
  induction later generalizing next with
  | nil =>
    cases passed with
    | nil => rfl
    | cons w rest =>
      have hw := hp w List.mem_cons_self
      rw [List.nil_append, positionBefore, if_pos hw]
      exact (segment_some hw hn).symm
  | cons w rest ih =>
    have hw := hl w List.mem_cons_self
    rw [List.cons_append, positionBefore, if_neg (Duration.not_le.2 hw),
      ih hw fun v hv => hl v (List.mem_cons_of_mem _ hv), List.getLast?_cons_cons]

/-- The position is that of the segment around the point between what has passed and what has
not. -/
theorem positionAt_of_partition {later passed : List Waypoint}
    (h : t.waypoints = later ++ passed) (hl : ∀ w ∈ later, now < w.time)
    (hp : ∀ w ∈ passed, w.time ≤ now) :
    t.positionAt now = segment now passed.head? later.getLast? := by
  obtain ⟨latest, earlier⟩ := t
  cases later with
  | nil =>
    obtain rfl : latest :: earlier = passed := h
    exact if_pos (hp latest List.mem_cons_self)
  | cons w rest =>
    obtain ⟨rfl, rfl⟩ := List.cons.inj h
    have hw := hl latest List.mem_cons_self
    rw [positionAt, if_neg (Duration.not_le.2 hw)]
    exact positionBefore_of_partition hw (fun v hv => hl v (List.mem_cons_of_mem _ hv)) hp

theorem keepFrom_of_partition {later passed : List Waypoint} (hl : ∀ w ∈ later, now < w.time)
    (hp : ∀ w ∈ passed, w.time ≤ now) :
    keepFrom now (later ++ passed) = later ++ passed.take 1 := by
  induction later with
  | nil =>
    cases passed with
    | nil => rfl
    | cons w rest => exact if_pos (hp w List.mem_cons_self)
  | cons w rest ih =>
    rw [List.cons_append, keepFrom, if_neg (Duration.not_le.2 (hl w List.mem_cons_self)),
      ih fun v hv => hl v (List.mem_cons_of_mem _ hv), List.cons_append]

/-- A prune leaves what has not passed and the newest waypoint that has. -/
theorem prune_of_partition {later passed : List Waypoint}
    (h : t.waypoints = later ++ passed) (hl : ∀ w ∈ later, now < w.time)
    (hp : ∀ w ∈ passed, w.time ≤ now) : (t.prune now).waypoints = later ++ passed.take 1 := by
  obtain ⟨latest, earlier⟩ := t
  cases later with
  | nil =>
    obtain rfl : latest :: earlier = passed := h
    rw [prune, if_pos (hp latest List.mem_cons_self)]
    rfl
  | cons w rest =>
    obtain ⟨rfl, rfl⟩ := List.cons.inj h
    rw [prune, if_neg (Duration.not_le.2 (hl latest List.mem_cons_self))]
    exact congrArg (latest :: ·)
      (keepFrom_of_partition (fun v hv => hl v (List.mem_cons_of_mem _ hv)) hp)

theorem Ordered.partition (h : t.Ordered) (now : Instant) :
    ∃ later passed, t.waypoints = later ++ passed ∧ (∀ w ∈ later, now < w.time) ∧
      ∀ w ∈ passed, w.time ≤ now := by
  rw [Ordered] at h
  generalize t.waypoints = ws at h ⊢
  induction ws with
  | nil => exact ⟨[], [], rfl, by simp, by simp⟩
  | cons w rest ih =>
    obtain ⟨hw, hr⟩ := List.pairwise_cons.1 h
    by_cases hn : w.time ≤ now
    · refine ⟨[], w :: rest, rfl, by simp, fun v hv => ?_⟩
      rcases List.mem_cons.1 hv with rfl | hv
      · exact hn
      · exact Nat.le_trans (hw v hv) hn
    · obtain ⟨later, passed, rfl, hl, hp⟩ := ih hr
      refine ⟨w :: later, passed, rfl, fun v hv => ?_, hp⟩
      rcases List.mem_cons.1 hv with rfl | hv
      · exact Duration.not_le.1 hn
      · exact hl v hv

theorem ordered_restingAt (position : Vec3) : (restingAt position).Ordered :=
  List.pairwise_singleton _ _

theorem add_eq_ok (h : t.add w = .ok t') :
    t' = ⟨w, t.latest :: t.earlier⟩ ∧ t.latest.time ≤ w.time := by
  unfold add at h
  split at h
  · cases h
  · exact ⟨(Except.ok.inj h).symm, Duration.not_lt.1 ‹_›⟩

theorem Ordered.add (h : t.Ordered) (ht : t.add w = .ok t') : t'.Ordered := by
  obtain ⟨rfl, hw⟩ := add_eq_ok ht
  refine List.pairwise_cons.2 ⟨fun v hv => ?_, h⟩
  rcases List.mem_cons.1 hv with rfl | hv
  · exact hw
  · exact Nat.le_trans ((List.pairwise_cons.1 h).1 v hv) hw

theorem Ordered.prune (h : t.Ordered) (now : Instant) : (t.prune now).Ordered := by
  obtain ⟨later, passed, ht, hl, hp⟩ := h.partition now
  rw [Ordered, prune_of_partition ht hl hp]
  rw [Ordered, ht] at h
  exact h.sublist ((List.take_sublist 1 passed).append_left later)

/-! ## Tracks that agree from an instant on -/

/-- The same last waypoint, and the same positions from `now` on. -/
structure Agrees (now : Instant) (t u : Track) : Prop where
  latest : t.latest = u.latest
  position : ∀ time, now ≤ time → t.positionAt time = u.positionAt time

theorem Agrees.refl (now : Instant) (t : Track) : Agrees now t t := ⟨rfl, fun _ _ => rfl⟩

theorem Agrees.symm (h : Agrees now t u) : Agrees now u t :=
  ⟨h.latest.symm, fun time ht => (h.position time ht).symm⟩

theorem Agrees.trans (h : Agrees now t u) (h' : Agrees now u u') : Agrees now t u' :=
  ⟨h.latest.trans h'.latest, fun time ht => (h.position time ht).trans (h'.position time ht)⟩

theorem Agrees.mono (h : Agrees now t u) (hn : now ≤ time) : Agrees time t u :=
  ⟨h.latest, fun later hl => h.position later (Nat.le_trans hn hl)⟩

/-- A new waypoint changes positions by itself and by the last waypoint before it only. -/
theorem positionAt_cons (t : Track) (w : Waypoint) (time : Instant) :
    positionAt ⟨w, t.waypoints⟩ time = if w.time ≤ time then w.position
      else if t.latest.time ≤ time then between t.latest w time else t.positionAt time := by
  rw [positionAt]
  refine ite_congr rfl (fun _ => rfl) fun _ => ?_
  rw [waypoints, positionBefore]
  exact ite_congr rfl (fun _ => rfl) fun hl => (if_neg hl).symm

theorem Agrees.cons (h : Agrees now t u) (w : Waypoint) :
    Agrees now ⟨w, t.waypoints⟩ ⟨w, u.waypoints⟩ := by
  refine ⟨rfl, fun time hn => ?_⟩
  rw [positionAt_cons, positionAt_cons, h.latest, h.position time hn]

theorem Agrees.add (h : Agrees now t u) (ht : t.add w = .ok t') :
    ∃ u', u.add w = .ok u' ∧ Agrees now t' u' := by
  obtain ⟨rfl, hw⟩ := add_eq_ok ht
  rw [h.latest] at hw
  exact ⟨_, if_neg (Duration.not_lt.2 hw), h.cons w⟩

theorem Agrees.add_error (h : Agrees now t u) {f : Failure} (ht : t.add w = .error f) :
    u.add w = .error f := by
  unfold Track.add at ht ⊢
  rw [← h.latest]
  split at ht
  · rwa [if_pos ‹_›]
  · cases ht

theorem positionBefore_keepFrom (hn : now ≤ time) (next : Waypoint) (ws : List Waypoint) :
    positionBefore time next (keepFrom now ws) = positionBefore time next ws := by
  induction ws generalizing next with
  | nil => rfl
  | cons w rest ih =>
    rw [keepFrom]
    split
    · rename_i hw
      have ht : w.time ≤ time := Nat.le_trans hw hn
      simp only [positionBefore, if_pos ht]
    · simp only [positionBefore, ih]

@[simp] theorem latest_prune (t : Track) (now : Instant) : (t.prune now).latest = t.latest := by
  unfold prune
  split <;> rfl

/-- A prune leaves all positions from its instant on as they are. -/
theorem agrees_prune (t : Track) (now : Instant) : Agrees now (t.prune now) t := by
  refine ⟨latest_prune t now, fun time hn => ?_⟩
  unfold positionAt
  rw [latest_prune]
  refine ite_congr rfl (fun _ => rfl) fun ht => ?_
  have hl : ¬ t.latest.time ≤ now := fun hl => ht (Nat.le_trans hl hn)
  rw [prune, if_neg hl]
  exact positionBefore_keepFrom hn _ _

theorem Agrees.prune (h : Agrees now t u) (hn : time ≤ now) : Agrees now (t.prune time) u :=
  ((agrees_prune t time).mono hn).trans h

/-! ## Requests -/

/-- What a track can be asked for. -/
inductive Request where
  /-- Add a waypoint at the end. -/
  | add (w : Waypoint)
  /-- Drop what positions at `now` and later do not depend on. -/
  | prune (now : Instant)

/-- Whether a waypoint is to be added. -/
def Request.adds : Request → Bool
  | .add _ => true
  | .prune _ => false

/-- The answers to the additions among some requests, in their order, and the track that is left.
An addition that is refused changes nothing. -/
def run : Track → List Request → List (Except Failure Unit) × Track
  | t, [] => ([], t)
  | t, .prune now :: rest => (t.prune now).run rest
  | t, .add w :: rest =>
    match t.add w with
    | .ok t' => (.ok () :: (t'.run rest).1, (t'.run rest).2)
    | .error f => (.error f :: (t.run rest).1, (t.run rest).2)

/-- Requests keep the waypoints in order. -/
theorem run_ordered (h : t.Ordered) (requests : List Request) : (t.run requests).2.Ordered := by
  induction requests generalizing t with
  | nil => exact h
  | cons r rest ih =>
    cases r with
    | prune now => exact ih (h.prune now)
    | add w =>
      rw [run]
      split
      · exact ih (h.add ‹_›)
      · exact ih h

/-- After any requests the position is that of the segment where a search ends. -/
theorem exists_positionAt_run (position : Vec3) (requests : List Request) (now : Instant) :
    let t := ((restingAt position).run requests).2
    ∃ later passed, t.waypoints = later ++ passed ∧ (∀ w ∈ later, now < w.time) ∧
      (∀ w ∈ passed, w.time ≤ now) ∧
      t.positionAt now = segment now passed.head? later.getLast? := by
  intro t
  have ordered : t.Ordered := run_ordered (ordered_restingAt position) requests
  obtain ⟨later, passed, ht, hl, hp⟩ := ordered.partition now
  exact ⟨later, passed, ht, hl, hp, positionAt_of_partition ht hl hp⟩

theorem Agrees.run (h : Agrees now t u) (requests : List Request)
    (hp : ∀ time, .prune time ∈ requests → time ≤ now) :
    (t.run requests).1 = (u.run (requests.filter Request.adds)).1 ∧
      Agrees now (t.run requests).2 (u.run (requests.filter Request.adds)).2 := by
  induction requests generalizing t u with
  | nil => exact ⟨rfl, h⟩
  | cons r rest ih =>
    have hr : ∀ time, .prune time ∈ rest → time ≤ now := fun time ht =>
      hp time (List.mem_cons_of_mem _ ht)
    cases r with
    | prune time => exact ih (h.prune (hp time List.mem_cons_self)) hr
    | add w =>
      rw [List.filter_cons_of_pos rfl, Track.run, Track.run]
      cases ht : t.add w with
      | ok t' =>
        obtain ⟨u', hu, h'⟩ := h.add ht
        rw [hu]
        exact ⟨congrArg (_ :: ·) (ih h' hr).1, (ih h' hr).2⟩
      | error f =>
        rw [h.add_error ht]
        exact ⟨congrArg (_ :: ·) (ih h hr).1, (ih h hr).2⟩

/-- Some instant is as late as all prunes among some requests. -/
theorem exists_ge_prunes (requests : List Request) :
    ∃ now, ∀ time, .prune time ∈ requests → time ≤ now := by
  induction requests with
  | nil => exact ⟨.zero, by simp⟩
  | cons r rest ih =>
    obtain ⟨now, h⟩ := ih
    cases r with
    | add w => exact ⟨now, by simpa using h⟩
    | prune first =>
      refine ⟨first.max now, fun time ht => ?_⟩
      rcases List.mem_cons.1 ht with ht | ht
      · cases ht
        exact Duration.le_max_left
      · exact Nat.le_trans (h time ht) Duration.le_max_right

/-- Pruning is invisible : whatever is asked of a track that starts at rest, the additions have
the answers that they have without the prunes, the last waypoint is the same, at least one
waypoint is left, and so are all positions from the latest instant on that was ever pruned to. -/
theorem prune_invisible (position : Vec3) (requests : List Request) :
    let pruned := (restingAt position).run requests
    let whole := (restingAt position).run (requests.filter Request.adds)
    pruned.1 = whole.1 ∧ pruned.2.latest = whole.2.latest ∧ 0 < pruned.2.size ∧
      ∀ now, (∀ time, .prune time ∈ requests → time ≤ now) →
        pruned.2.positionAt now = whole.2.positionAt now := by
  intro pruned whole
  have h (now : Instant) := (Agrees.refl now (restingAt position)).run requests
  obtain ⟨late, hlate⟩ := exists_ge_prunes requests
  exact ⟨(h late hlate).1, (h late hlate).2.latest, Nat.succ_pos _,
    fun now hnow => (h now hnow).2.position now (Nat.le_refl _)⟩

/-- Two waypoints, a prune between them, one that comes too late, and one more prune. -/
def detour : List Request :=
  [.add ⟨⟨2, by decide⟩, Vec3.zero⟩, .add ⟨⟨4, by decide⟩, Vec3.zero⟩, .prune ⟨3, by decide⟩,
    .add ⟨⟨1, by decide⟩, Vec3.zero⟩, .prune ⟨1, by decide⟩]

theorem prune_invisible_detour :
    ((restingAt Vec3.zero).run detour).2.size = 2 ∧
      ((restingAt Vec3.zero).run (detour.filter Request.adds)).2.size = 3 ∧
      ((restingAt Vec3.zero).run detour).2.positionAt ⟨3, by decide⟩ =
        ((restingAt Vec3.zero).run (detour.filter Request.adds)).2.positionAt ⟨3, by decide⟩ := by
  refine ⟨rfl, rfl, (prune_invisible Vec3.zero detour).2.2.2 _ fun time ht => ?_⟩
  have ht' : time = ⟨3, by decide⟩ ∨ time = ⟨1, by decide⟩ := by simpa [detour] using ht
  rcases ht' with rfl | rfl <;> decide

end Track

end SwarmFlight
