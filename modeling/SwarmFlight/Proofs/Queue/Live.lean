import Mathlib.Data.List.Nodup
import Mathlib.Data.List.Perm.Basic
import SwarmFlight.Proofs.Queue.Order

/-!
# The events still to come

A queue keeps cancelled events in its heap. `live` is what is left without them, and each
operation is described by what it does to `live`, in a queue that is `WellFormed` :

* `scheduleAt` adds one entry (`live_scheduleAt`), and `scheduleAll` one for each of some
  events (`live_scheduleAll`);
* `cancel` takes out the entry of a number (`live_cancel`);
* `pop` takes out the first entry (`Takes`), or drains the queue if there is none before
  the stop time (`Drained`), and `pop_cases` says which;
* `peek` and `settle` change nothing (`live_settle`).

Every operation keeps a queue well formed.
-/

namespace SwarmFlight

namespace EventQueue

variable {ε : Type} {q : EventQueue ε}

/-- The entries that are still to take place, in no particular order. -/
def live (q : EventQueue ε) : List (Entry ε) := q.heap.toList.filter fun e => q.isPending e.id

/-- What holds of a queue at all times. -/
structure WellFormed (q : EventQueue ε) : Prop where
  ordered : q.heap.Ordered Entry.before
  distinct : (q.live.map Entry.id).Nodup
  /-- Every pending number has its entry in the heap. -/
  held : ∀ id, q.isPending id → ∃ e ∈ q.heap.toList, e.id = id
  fresh : ∀ e ∈ q.heap.toList, e.id < q.nextId
  /-- Nothing is due before now. -/
  ahead : ∀ e ∈ q.heap.toList, q.clock ≤ e.due

theorem mem_live {e : Entry ε} : e ∈ q.live ↔ e ∈ q.heap.toList ∧ q.isPending e.id := by
  simp [live]

theorem WellFormed.mem_ids_iff (hq : q.WellFormed) {id : EventId} :
    id ∈ q.live.map Entry.id ↔ q.isPending id := by
  rw [List.mem_map]
  constructor
  · rintro ⟨e, he, rfl⟩
    exact (mem_live.1 he).2
  · intro h
    obtain ⟨e, he, rfl⟩ := hq.held id h
    exact ⟨e, mem_live.2 ⟨he, h⟩, rfl⟩

theorem WellFormed.fresh_of_pending (hq : q.WellFormed) {id : EventId} (h : q.isPending id) :
    id < q.nextId := by
  obtain ⟨e, he, rfl⟩ := hq.held id h
  exact hq.fresh e he

theorem WellFormed.eq_of_id_eq (hq : q.WellFormed) {a b : Entry ε} (ha : a ∈ q.live)
    (hb : b ∈ q.live) (h : a.id = b.id) : a = b :=
  List.inj_on_of_nodup_map hq.distinct ha hb h

/-- The number of events to come is the number of live entries. -/
theorem WellFormed.size_eq (hq : q.WellFormed) : q.size = q.live.length := by
  have hp : q.pending.toList.Nodup := by
    refine Std.HashSet.distinct_toList.imp fun h => ?_
    simpa using h
  have hperm : q.pending.toList.Perm (q.live.map Entry.id) := by
    rw [List.perm_ext_iff_of_nodup hp hq.distinct]
    intro id
    rw [Std.HashSet.mem_toList, hq.mem_ids_iff]
    rfl
  rw [size, ← Std.HashSet.length_toList, hperm.length_eq, List.length_map]

theorem WellFormed.isEmpty_eq (hq : q.WellFormed) : q.isEmpty = q.live.isEmpty := by
  have h := hq.size_eq
  rw [size] at h
  rw [isEmpty, Std.HashSet.isEmpty_eq_size_eq_zero, h]
  cases q.live <;> rfl

@[simp] theorem live_empty : (empty : EventQueue ε).live = [] := rfl

theorem wellFormed_empty : (empty : EventQueue ε).WellFormed where
  ordered := trivial
  distinct := List.nodup_nil
  held id h := by simp [isPending, empty] at h
  fresh e he := by simp [empty, Heap.toList] at he
  ahead e he := by simp [empty, Heap.toList] at he

@[simp] theorem live_stopAt (t : Instant) : (q.stopAt t).live = q.live := rfl

theorem WellFormed.stopAt (hq : q.WellFormed) (t : Instant) : (q.stopAt t).WellFormed :=
  ⟨hq.ordered, hq.distinct, hq.held, hq.fresh, hq.ahead⟩

/-! ## Scheduling -/

section Schedule

variable [Ranked ε]

/-- The entry that an event gets when it is scheduled. -/
def newEntry (q : EventQueue ε) (time : Instant) (event : ε) : Entry ε :=
  ⟨time.max q.clock, Ranked.rank event, q.nextId, event⟩

theorem toList_scheduleAt (time : Instant) (event : ε) :
    (q.scheduleAt time event).2.heap.toList.Perm (q.newEntry time event :: q.heap.toList) :=
  Heap.toList_merge _ _ _

theorem isPending_scheduleAt (time : Instant) (event : ε) (id : EventId) :
    (q.scheduleAt time event).2.isPending id = (q.nextId == id || q.isPending id) :=
  Std.HashSet.contains_insert

/-- Scheduling adds one entry. -/
theorem WellFormed.live_scheduleAt (hq : q.WellFormed) (time : Instant) (event : ε) :
    (q.scheduleAt time event).2.live.Perm (q.newEntry time event :: q.live) := by
  refine ((toList_scheduleAt time event).filter _).trans ?_
  have hnew : (q.scheduleAt time event).2.isPending (q.newEntry time event).id := by
    simp [isPending_scheduleAt, newEntry]
  have hold : ∀ e ∈ q.heap.toList,
      (q.scheduleAt time event).2.isPending e.id = q.isPending e.id := by
    intro e he
    have hne : q.nextId ≠ e.id := (hq.fresh e he).ne'
    simp [isPending_scheduleAt, hne]
  rw [List.filter_cons_of_pos (by exact hnew), List.filter_congr hold]
  exact .refl _

theorem WellFormed.scheduleAt (hq : q.WellFormed) (time : Instant) (event : ε) :
    (q.scheduleAt time event).2.WellFormed where
  ordered :=
    Heap.ordered_merge Entry.before_total Entry.before_trans
      ⟨by simp [Heap.toList], trivial, trivial⟩ hq.ordered
  distinct := by
    rw [((hq.live_scheduleAt time event).map Entry.id).nodup_iff, List.map_cons, List.nodup_cons]
    refine ⟨fun h => ?_, hq.distinct⟩
    exact (hq.fresh_of_pending (hq.mem_ids_iff.1 h)).false
  held id h := by
    rw [isPending_scheduleAt, Bool.or_eq_true, beq_iff_eq] at h
    rcases h with rfl | h
    · exact ⟨_, (toList_scheduleAt time event).mem_iff.2 List.mem_cons_self, rfl⟩
    · obtain ⟨e, he, rfl⟩ := hq.held id h
      exact ⟨e, (toList_scheduleAt time event).mem_iff.2 (List.mem_cons_of_mem _ he), rfl⟩
  fresh e he := by
    rcases List.mem_cons.1 ((toList_scheduleAt time event).mem_iff.1 he) with rfl | he
    · exact Nat.lt_succ_self _
    · exact Nat.lt_succ_of_lt (hq.fresh e he)
  ahead e he := by
    rcases List.mem_cons.1 ((toList_scheduleAt time event).mem_iff.1 he) with rfl | he
    · exact Duration.le_max_right
    · exact hq.ahead e he

/-- The entries that some events get when they are scheduled one after the other. -/
def newEntries : EventQueue ε → List (Instant × ε) → List (Entry ε)
  | _, [] => []
  | q, (time, event) :: rest =>
    q.newEntry time event :: (q.scheduleAt time event).2.newEntries rest

/-- The queue after some events were scheduled one after the other. -/
def scheduleAll (q : EventQueue ε) (events : List (Instant × ε)) : EventQueue ε :=
  events.foldl (fun q (time, event) => (q.scheduleAt time event).2) q

section ScheduleAll

variable (q) (events : List (Instant × ε))

@[simp] theorem clock_scheduleAll : (q.scheduleAll events).clock = q.clock := by
  induction events generalizing q with
  | nil => rfl
  | cons x rest ih => exact ih _

@[simp] theorem stopTime_scheduleAll : (q.scheduleAll events).stopTime = q.stopTime := by
  induction events generalizing q with
  | nil => rfl
  | cons x rest ih => exact ih _

@[simp] theorem dispatched_scheduleAll : (q.scheduleAll events).dispatched = q.dispatched := by
  induction events generalizing q with
  | nil => rfl
  | cons x rest ih => exact ih _

theorem scheduleAll_append (events' : List (Instant × ε)) :
    q.scheduleAll (events ++ events') = (q.scheduleAll events).scheduleAll events' :=
  List.foldl_append

theorem newEntries_map : (q.newEntries events).map (fun e => (e.due, e.event)) =
    events.map fun x => (x.1.max q.clock, x.2) := by
  induction events generalizing q with
  | nil => rfl
  | cons x rest ih => exact congrArg _ (ih _)

variable {q events}

theorem rank_of_mem_newEntries {e : Entry ε} (h : e ∈ q.newEntries events) :
    e.rank = Ranked.rank e.event := by
  induction events generalizing q with
  | nil => exact absurd h List.not_mem_nil
  | cons x rest ih =>
    rcases List.mem_cons.1 h with rfl | h
    · rfl
    · exact ih h

theorem WellFormed.scheduleAll (hq : q.WellFormed) : (q.scheduleAll events).WellFormed := by
  induction events generalizing q with
  | nil => exact hq
  | cons x rest ih => exact ih (hq.scheduleAt _ _)

/-- Scheduling adds one entry for each event. -/
theorem WellFormed.live_scheduleAll (hq : q.WellFormed) :
    (q.scheduleAll events).live.Perm (q.newEntries events ++ q.live) := by
  induction events generalizing q with
  | nil => exact .refl _
  | cons x rest ih =>
    refine (ih (hq.scheduleAt _ _)).trans ?_
    exact ((hq.live_scheduleAt _ _).append_left _).trans List.perm_middle

end ScheduleAll

end Schedule

/-! ## Cancelling -/

theorem isPending_cancel (id k : EventId) :
    (q.cancel id).2.isPending k = (id != k && q.isPending k) := by
  rw [isPending, cancel, Std.HashSet.contains_erase]
  rfl

/-- Cancelling takes out the entry of a number. -/
theorem live_cancel (id : EventId) : (q.cancel id).2.live = q.live.filter (·.id ≠ id) := by
  have h : ∀ e ∈ q.heap.toList, (q.cancel id).2.isPending e.id
      = (decide (e.id ≠ id) && q.isPending e.id) := by
    intro e _
    rw [isPending_cancel, bne_comm]
    by_cases h : e.id = id <;> simp [h]
  rw [live, live, List.filter_filter]
  exact List.filter_congr h

theorem WellFormed.cancel (hq : q.WellFormed) (id : EventId) : (q.cancel id).2.WellFormed where
  ordered := hq.ordered
  distinct := by
    rw [live_cancel]
    exact hq.distinct.sublist (List.filter_sublist.map _)
  held k h := by
    rw [isPending_cancel, Bool.and_eq_true] at h
    exact hq.held k h.2
  fresh := hq.fresh
  ahead := hq.ahead

/-! ## Taking events out -/

/-- Dropping cancelled events from the top loses no live entry. -/
theorem live_settle (q : EventQueue ε) : q.settle.live.Perm q.live := by
  have h := @Heap.filter_dropWhile _ Entry.before (fun e => !q.isPending e.id) q.heap
  simp only [Bool.not_not] at h
  exact h

theorem WellFormed.settle (hq : q.WellFormed) : q.settle.WellFormed where
  ordered :=
    Heap.ordered_dropWhile _ _ Entry.before_total Entry.before_trans hq.ordered
  distinct := ((live_settle q).map Entry.id).nodup_iff.2 hq.distinct
  held id h := by
    obtain ⟨e, he, rfl⟩ := hq.held id h
    have hl := (live_settle q).mem_iff.2 (mem_live.2 ⟨he, h⟩)
    exact ⟨e, (mem_live.1 hl).1, rfl⟩
  fresh e he := hq.fresh e (Heap.mem_of_mem_dropWhile _ _ he)
  ahead e he := hq.ahead e (Heap.mem_of_mem_dropWhile _ _ he)

/-- A settled queue has a live entry on top, which comes before all others. -/
theorem WellFormed.settle_top (hq : q.WellFormed) {n : Nat} {e : Entry ε} {l r : Heap (Entry ε)}
    (h : q.settle.heap = .node n e l r) : e ∈ q.live ∧ ∀ x ∈ q.live, e.before x := by
  have hlive : e ∈ q.settle.live := by
    refine mem_live.2 ⟨by rw [h]; exact List.mem_cons_self, ?_⟩
    have hd := Heap.not_dead_of_dropWhile _ _ h
    simp only [Bool.not_eq_false'] at hd
    exact hd
  refine ⟨(live_settle q).mem_iff.1 hlive, fun x hx => ?_⟩
  have hx := (mem_live.1 ((live_settle q).mem_iff.2 hx)).1
  have ho := hq.settle.ordered
  rw [h] at hx ho
  exact Heap.top_before Entry.before_refl ho x hx

/-- A queue without events, with clock and counters as before. -/
structure Drained (q q' : EventQueue ε) : Prop where
  wellFormed : q'.WellFormed
  live : q'.live = []
  clock : q'.clock = q.clock
  nextId : q'.nextId = q.nextId
  stopTime : q'.stopTime = q.stopTime
  dispatched : q'.dispatched = q.dispatched

/-- What is called off after all has been drained was not there. -/
theorem Drained.cancel {q' : EventQueue ε} (h : Drained q q') (id : EventId) :
    Drained q (q'.cancel id).2 where
  wellFormed := h.wellFormed.cancel id
  live := by rw [live_cancel, h.live]; rfl
  clock := h.clock
  nextId := h.nextId
  stopTime := h.stopTime
  dispatched := h.dispatched

/-- The first entry is taken out and the clock moved to its due time. -/
structure Takes (q : EventQueue ε) (e : Entry ε) (q' : EventQueue ε) : Prop where
  wellFormed : q'.WellFormed
  live : q.live.Perm (e :: q'.live)
  first : ∀ x ∈ q.live, e.before x
  clock : q'.clock = e.due
  nextId : q'.nextId = q.nextId
  stopTime : q'.stopTime = q.stopTime
  dispatched : q'.dispatched = q.dispatched + 1

theorem drained_settle (hq : q.WellFormed) (h : q.settle.heap = .empty) : Drained q q.settle where
  wellFormed := hq.settle
  live := by rw [live, h]; rfl
  clock := rfl
  nextId := rfl
  stopTime := rfl
  dispatched := rfl

theorem drained_flush (q : EventQueue ε) :
    Drained q { q.settle with heap := .empty, pending := ∅ } where
  wellFormed := ⟨trivial, List.nodup_nil, fun id h => by simp [isPending] at h,
    fun e he => by simp [Heap.toList] at he, fun e he => by simp [Heap.toList] at he⟩
  live := rfl
  clock := rfl
  nextId := rfl
  stopTime := rfl
  dispatched := rfl

theorem WellFormed.takes_top (hq : q.WellFormed) {n : Nat} {e : Entry ε} {l r : Heap (Entry ε)}
    (h : q.settle.heap = .node n e l r) :
    Takes q e { q.settle with
      heap := Heap.merge Entry.before l r
      pending := q.settle.pending.erase e.id
      clock := e.due
      dispatched := q.settle.dispatched + 1 } := by
  obtain ⟨he, hfirst⟩ := hq.settle_top h
  have hs := hq.settle
  have ho := hs.ordered
  rw [h] at ho
  have hheap : q.settle.heap.toList = e :: (l.toList ++ r.toList) := by rw [h]; rfl
  have hmem : ∀ x, x ∈ (Heap.merge Entry.before l r).toList → x ∈ q.settle.heap.toList := by
    intro x hx
    rw [hheap]
    exact List.mem_cons_of_mem _ (List.mem_append.2 (Heap.mem_toList_merge.1 hx))
  -- the live entries of the settled queue are the top and those below it with other numbers
  have hpend : ∀ k, (q.settle.pending.erase e.id).contains k = (e.id != k && q.isPending k) :=
    fun k => isPending_cancel (q := q.settle) e.id k
  have hep : q.isPending e.id := (mem_live.1 he).2
  have hlive : q.settle.live = e :: (l.toList ++ r.toList).filter fun x => q.isPending x.id := by
    rw [live, hheap]
    exact List.filter_cons_of_pos hep
  have hother : ∀ x ∈ (l.toList ++ r.toList).filter fun x => q.isPending x.id, e.id ≠ x.id := by
    have hd := hs.distinct
    rw [hlive, List.map_cons, List.nodup_cons] at hd
    exact fun x hx hid => hd.1 (List.mem_map.2 ⟨x, hx, hid.symm⟩)
  have hrest : ((Heap.merge Entry.before l r).toList.filter fun x =>
      (q.settle.pending.erase e.id).contains x.id).Perm
      ((l.toList ++ r.toList).filter fun x => q.isPending x.id) := by
    refine ((Heap.toList_merge _ l r).filter _).trans (List.Perm.of_eq ?_)
    rw [List.filter_congr fun x _ => hpend x.id, ← List.filter_filter, List.filter_eq_self]
    exact fun x hx => bne_iff_ne.2 (hother x hx)
  have hperm : q.live.Perm (e :: (Heap.merge Entry.before l r).toList.filter fun x =>
      (q.settle.pending.erase e.id).contains x.id) :=
    (live_settle q).symm.trans ((List.Perm.of_eq hlive).trans (.cons _ hrest.symm))
  refine ⟨⟨?_, ?_, fun k hk => ?_, fun x hx => hs.fresh x (hmem x hx), fun x hx => ?_⟩,
    hperm, hfirst, rfl, rfl, rfl, rfl⟩
  · exact Heap.ordered_merge Entry.before_total Entry.before_trans ho.2.1 ho.2.2
  · exact ((hperm.map Entry.id).nodup_iff.1 hq.distinct).of_cons
  · have hk' : e.id ≠ k ∧ q.isPending k := by
      simpa using (hpend k).symm.trans hk
    obtain ⟨x, hx, rfl⟩ := hs.held k hk'.2
    rw [hheap] at hx
    rcases List.mem_cons.1 hx with rfl | hx
    · exact absurd rfl hk'.1
    · exact ⟨x, (Heap.toList_merge _ l r).mem_iff.2 hx, rfl⟩
  · exact Entry.due_le_of_before (ho.1 x (List.mem_append.2 (Heap.mem_toList_merge.1 hx)))

/-! ## The stop time -/

theorem stopsBy_iff {stop t : Instant} (h : q.stopTime = some stop) : q.stopsBy t ↔ stop ≤ t := by
  simp only [stopsBy, h, decide_eq_true_eq]

theorem lt_of_not_stopsBy {stop t : Instant} (h : q.stopTime = some stop)
    (ht : q.stopsBy t = false) : t < stop := by
  rw [← Duration.not_le, ← stopsBy_iff h, ht]
  exact Bool.false_ne_true

theorem stopsBy_mono {t t' : Instant} (h : t ≤ t') (ht : q.stopsBy t) : q.stopsBy t' := by
  cases hs : q.stopTime with
  | none => simp only [stopsBy, hs, Bool.false_eq_true] at ht
  | some stop => exact (stopsBy_iff hs).2 (Nat.le_trans ((stopsBy_iff hs).1 ht) h)

/-- Taking out an event either drains the queue, if nothing is live or the first live entry is not
due before the stop time, or takes that entry out. -/
theorem WellFormed.pop_cases (hq : q.WellFormed) :
    (∃ q', q.pop = (none, q') ∧ Drained q q' ∧
      (q.live = [] ∨ ∃ e ∈ q.live, (∀ x ∈ q.live, e.before x) ∧ q.stopsBy e.due)) ∨
    ∃ e q', q.pop = (some e, q') ∧ Takes q e q' ∧ q.stopsBy e.due = false := by
  cases h : q.settle.heap with
  | empty =>
    refine .inl ⟨q.settle, by simp only [pop, h], drained_settle hq h, .inl ?_⟩
    have hp := live_settle q
    rw [(drained_settle hq h).live] at hp
    exact hp.nil_eq.symm
  | node n e l r =>
    have hstop : q.settle.stopsBy e.due = q.stopsBy e.due := rfl
    obtain ⟨he, hfirst⟩ := hq.settle_top h
    cases hs : q.stopsBy e.due with
    | true =>
      refine .inl ⟨_, ?_, drained_flush q, .inr ⟨e, he, hfirst, hs⟩⟩
      simp only [pop, h, hstop, hs, if_true]
    | false =>
      refine .inr ⟨e, _, ?_, hq.takes_top h, hs⟩
      simp only [pop, h, hstop, hs, Bool.false_eq_true, if_false]

theorem Takes.mem (h : Takes q e q') : e ∈ q.live := h.live.mem_iff.2 List.mem_cons_self

/-- The entry that is taken is gone. -/
theorem Takes.id_ne {e x : Entry ε} (h : q.Takes e q') (hq : q.WellFormed) (hx : x ∈ q'.live) :
    x.id ≠ e.id := by
  have hd := (h.live.map Entry.id).nodup_iff.1 hq.distinct
  rw [List.map_cons, List.nodup_cons] at hd
  exact fun heq => hd.1 (List.mem_map.2 ⟨x, hx, heq⟩)

/-- An entry that comes before all others is the one that is taken. -/
theorem Takes.eq_of_first {e a : Entry ε} {rest : List (Entry ε)} (h : q.Takes e q')
    (hlive : q.live.Perm (a :: rest)) (hfirst : ∀ x ∈ rest, x.before a = false) :
    e = a ∧ q'.live.Perm rest := by
  have he : e = a := by
    rcases List.mem_cons.1 (hlive.mem_iff.1 h.mem) with he | he
    · exact he
    · have hbefore := h.first a (hlive.mem_iff.2 List.mem_cons_self)
      rw [hfirst e he] at hbefore
      cases hbefore
  subst he
  exact ⟨rfl, (h.live.symm.trans hlive).cons_inv⟩

/-- An entry that comes before all others is taken next, if nothing stops the queue. -/
theorem WellFormed.exists_pop {a : Entry ε} {rest : List (Entry ε)} (hq : q.WellFormed)
    (hstop : q.stopTime = none) (hlive : q.live.Perm (a :: rest))
    (hfirst : ∀ x ∈ rest, x.before a = false) :
    ∃ q', q.pop = (some a, q') ∧ q.Takes a q' ∧ q'.live.Perm rest := by
  rcases hq.pop_cases with ⟨q', -, -, hnone | ⟨e, -, -, hstops⟩⟩ | ⟨e, q', hpop, takes, -⟩
  · rw [hnone, List.nil_perm] at hlive
    cases hlive
  · simp [stopsBy, hstop] at hstops
  · obtain ⟨rfl, hrest⟩ := takes.eq_of_first hlive hfirst
    exact ⟨q', hpop, takes, hrest⟩

end EventQueue

end SwarmFlight
