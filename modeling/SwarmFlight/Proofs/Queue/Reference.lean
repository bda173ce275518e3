import Mathlib.Data.List.MinMax
import SwarmFlight.Proofs.Queue.Live

/-!
# A queue that holds live events only

`LiveQueue` is the event queue as one would describe it : a list of the events still to
come, from which a cancelled event is deleted at once and from which the least by key is
taken. It does in the plainest way what `EventQueue` does with a heap and a set.

Both answer `Request`s, and a `Reading` is what can be seen after a request. The two give
the same readings in every session (`readings_eq`) : `Agrees` holds of two new queues, and
every request keeps it and is answered alike (`Agrees.serve`).
-/

namespace SwarmFlight

/-- What can be asked of a queue. -/
inductive Request (ε : Type) where
  | scheduleAt (time : Instant) (event : ε)
  | scheduleAfter (delay : Duration) (event : ε)
  | cancel (id : EventId)
  | isPending (id : EventId)
  | pop
  | peek
  | size
  | stopAt (time : Instant)

/-- What a queue answers. -/
inductive Answer (ε : Type) where
  /-- The event was scheduled under this number. -/
  | scheduled (id : EventId)
  /-- There is no instant so far ahead. -/
  | outOfRange
  | flag (value : Bool)
  /-- The next event and its number, if there is one. -/
  | taken (event : Option (EventId × ε))
  | time (due : Option Instant)
  | count (n : Nat)
  | done

/-- What can be seen of a queue after a request. -/
structure Reading (ε : Type) where
  answer : Answer ε
  clock : Instant
  size : Nat
  isEmpty : Bool
  dispatched : Nat

namespace EventQueue

variable {ε : Type} [Ranked ε]

/-- Answer a request. -/
def serve (q : EventQueue ε) : Request ε → Answer ε × EventQueue ε
  | .scheduleAt time event =>
    let (id, q) := q.scheduleAt time event
    (.scheduled id, q)
  | .scheduleAfter delay event =>
    match q.scheduleAfter? delay event with
    | some (id, q) => (.scheduled id, q)
    | none => (.outOfRange, q)
  | .cancel id =>
    let (found, q) := q.cancel id
    (.flag found, q)
  | .isPending id => (.flag (q.isPending id), q)
  | .pop =>
    let (entry, q) := q.pop
    (.taken (entry.map fun e => (e.id, e.event)), q)
  | .peek =>
    let (due, q) := q.peek
    (.time due, q)
  | .size => (.count q.size, q)
  | .stopAt time => (.done, q.stopAt time)

/-- What is seen in the course of some requests. -/
def readings (q : EventQueue ε) : List (Request ε) → List (Reading ε)
  | [] => []
  | r :: rest =>
    let (answer, q) := q.serve r
    ⟨answer, q.clock, q.size, q.isEmpty, q.dispatched⟩ :: q.readings rest

end EventQueue

/-! ## The plain queue -/

/-- A clock, a stop time and the events still to come, in order of scheduling. -/
structure LiveQueue (ε : Type) where
  clock : Instant
  events : List (Entry ε)
  nextId : EventId
  stopTime : Option Instant
  dispatched : Nat

namespace LiveQueue

variable {ε : Type}

/-- Nothing scheduled, at the start of time. -/
def empty : LiveQueue ε := ⟨.zero, [], 0, none, 0⟩

/-- Add an event at the end, due at `time` or now if that has passed. -/
def scheduleAt [Ranked ε] (q : LiveQueue ε) (time : Instant) (event : ε) : LiveQueue ε :=
  { q with
    events := q.events ++ [⟨time.max q.clock, Ranked.rank event, q.nextId, event⟩]
    nextId := q.nextId + 1 }

/-- Delete the event of a number. -/
def delete (q : LiveQueue ε) (id : EventId) : LiveQueue ε :=
  { q with events := q.events.filter (·.id ≠ id) }

/-- Whether there is an event of a number. -/
def has (q : LiveQueue ε) (id : EventId) : Bool := q.events.any (·.id = id)

/-- The event with the least key. -/
def first? (q : LiveQueue ε) : Option (Entry ε) := q.events.argmin Entry.key

/-- Whether an instant is not before the stop time. -/
def stopped (q : LiveQueue ε) (time : Instant) : Bool := q.stopTime.any (· ≤ time)

/-- Take the event with the least key, or empty the queue if it is due at the stop time or later. -/
def pop (q : LiveQueue ε) : Option (Entry ε) × LiveQueue ε :=
  match q.first? with
  | none => (none, q)
  | some e =>
    if q.stopped e.due then (none, { q with events := [] })
    else (some e, { q.delete e.id with clock := e.due, dispatched := q.dispatched + 1 })

/-- Answer a request. -/
def serve [Ranked ε] (q : LiveQueue ε) : Request ε → Answer ε × LiveQueue ε
  | .scheduleAt time event => (.scheduled q.nextId, q.scheduleAt time event)
  | .scheduleAfter delay event =>
    match q.clock.add? delay with
    | some time => (.scheduled q.nextId, q.scheduleAt time event)
    | none => (.outOfRange, q)
  | .cancel id => (.flag (q.has id), q.delete id)
  | .isPending id => (.flag (q.has id), q)
  | .pop =>
    let (entry, q) := q.pop
    (.taken (entry.map fun e => (e.id, e.event)), q)
  | .peek => (.time (q.first?.map Entry.due), q)
  | .size => (.count q.events.length, q)
  | .stopAt time => (.done, { q with stopTime := some time })

/-- What is seen in the course of some requests. -/
def readings [Ranked ε] (q : LiveQueue ε) : List (Request ε) → List (Reading ε)
  | [] => []
  | r :: rest =>
    let (answer, q) := q.serve r
    ⟨answer, q.clock, q.events.length, q.events.isEmpty, q.dispatched⟩ :: q.readings rest

end LiveQueue

/-! ## Agreement -/

variable {ε : Type}

/-- A queue and a plain one with the same events to come, the same clock and the same counters. -/
structure Agrees (q : EventQueue ε) (p : LiveQueue ε) : Prop where
  wellFormed : q.WellFormed
  events : p.events.Perm q.live
  clock : p.clock = q.clock
  nextId : p.nextId = q.nextId
  stopTime : p.stopTime = q.stopTime
  dispatched : p.dispatched = q.dispatched

namespace Agrees

variable {q q' : EventQueue ε} {p : LiveQueue ε}

theorem empty : Agrees (EventQueue.empty : EventQueue ε) LiveQueue.empty :=
  ⟨EventQueue.wellFormed_empty, .refl _, rfl, rfl, rfl, rfl⟩

theorem has_eq (h : Agrees q p) (id : EventId) : p.has id = q.isPending id := by
  have hids : id ∈ p.events.map Entry.id ↔ q.isPending id := by
    rw [(h.events.map Entry.id).mem_iff, h.wellFormed.mem_ids_iff]
  rw [Bool.eq_iff_iff, ← hids, LiveQueue.has, List.any_eq_true, List.mem_map]
  simp only [decide_eq_true_eq]

theorem length_eq (h : Agrees q p) : p.events.length = q.size := by
  rw [h.wellFormed.size_eq, h.events.length_eq]

theorem isEmpty_eq (h : Agrees q p) : p.events.isEmpty = q.isEmpty := by
  rw [h.wellFormed.isEmpty_eq, h.events.isEmpty_eq]

theorem stopped_eq (h : Agrees q p) (t : Instant) : p.stopped t = q.stopsBy t := by
  rw [LiveQueue.stopped, EventQueue.stopsBy, h.stopTime]
  cases q.stopTime <;> rfl

theorem first?_eq_none (h : Agrees q p) (hl : q.live = []) : p.first? = none := by
  rw [LiveQueue.first?, List.argmin_eq_none]
  exact List.perm_nil.1 (hl ▸ h.events)

/-- The least event of the plain queue is the one that comes first in the other. -/
theorem first?_eq_some (h : Agrees q p) {e : Entry ε} (he : e ∈ q.live)
    (hfirst : ∀ x ∈ q.live, e.before x) : p.first? = some e := by
  have hp : e ∈ p.events := h.events.mem_iff.2 he
  cases hm : p.first? with
  | none =>
    rw [LiveQueue.first?, List.argmin_eq_none] at hm
    rw [hm] at hp
    exact absurd hp List.not_mem_nil
  | some m =>
    have hml : m ∈ q.live := h.events.mem_iff.1 (List.argmin_mem hm)
    have hkey : e.key = m.key :=
      le_antisymm (Entry.before_iff.1 (hfirst m hml)) (List.le_of_mem_argmin hp hm)
    rw [h.wellFormed.eq_of_id_eq he hml (Entry.id_eq_of_key_eq hkey)]

theorem scheduleAt [Ranked ε] (h : Agrees q p) (time : Instant) (event : ε) :
    Agrees (q.scheduleAt time event).2 (p.scheduleAt time event) where
  wellFormed := h.wellFormed.scheduleAt time event
  events := by
    refine .trans ?_ (h.wellFormed.live_scheduleAt time event).symm
    rw [LiveQueue.scheduleAt, h.clock, h.nextId]
    exact (h.events.append_right _).trans (List.perm_append_singleton _ _)
  clock := h.clock
  nextId := congrArg (· + 1) h.nextId
  stopTime := h.stopTime
  dispatched := h.dispatched

theorem delete (h : Agrees q p) (id : EventId) : Agrees (q.cancel id).2 (p.delete id) where
  wellFormed := h.wellFormed.cancel id
  events := by
    rw [EventQueue.live_cancel]
    exact h.events.filter _
  clock := h.clock
  nextId := h.nextId
  stopTime := h.stopTime
  dispatched := h.dispatched

theorem settle (h : Agrees q p) : Agrees q.settle p :=
  ⟨h.wellFormed.settle, h.events.trans (EventQueue.live_settle q).symm, h.clock, h.nextId,
    h.stopTime, h.dispatched⟩

theorem drain (h : Agrees q p) (hd : q.Drained q') : Agrees q' { p with events := [] } :=
  ⟨hd.wellFormed, by rw [hd.live], h.clock.trans hd.clock.symm, h.nextId.trans hd.nextId.symm,
    h.stopTime.trans hd.stopTime.symm, h.dispatched.trans hd.dispatched.symm⟩

theorem take (h : Agrees q p) {e : Entry ε} (ht : q.Takes e q') :
    Agrees q' { p.delete e.id with clock := e.due, dispatched := p.dispatched + 1 } where
  wellFormed := ht.wellFormed
  events := by
    have hne : ∀ x ∈ q'.live, x.id ≠ e.id := by
      have hd := (ht.live.map Entry.id).nodup_iff.1 h.wellFormed.distinct
      rw [List.map_cons, List.nodup_cons] at hd
      exact fun x hx hid => hd.1 (List.mem_map.2 ⟨x, hx, hid⟩)
    refine ((h.events.trans ht.live).filter _).trans ?_
    rw [List.filter_cons_of_neg (by simp), List.filter_eq_self.2 (by simpa using hne)]
  clock := ht.clock.symm
  nextId := h.nextId.trans ht.nextId.symm
  stopTime := h.stopTime.trans ht.stopTime.symm
  dispatched := by rw [ht.dispatched, ← h.dispatched]

/-- Both queues take out the same event. -/
theorem pop (h : Agrees q p) : p.pop.1 = q.pop.1 ∧ Agrees q.pop.2 p.pop.2 := by
  rcases h.wellFormed.pop_cases with ⟨q', hq', hd, hl | ⟨e, he, hfirst, hs⟩⟩ | ⟨e, q', hq', ht, hs⟩
  · have hnil : p.events = [] := List.perm_nil.1 (hl ▸ h.events)
    have hp : p.pop = (none, p) := by simp only [LiveQueue.pop, h.first?_eq_none hl]
    rw [hp, hq']
    refine ⟨rfl, ?_⟩
    have := h.drain hd
    rwa [← hnil] at this
  · have hp : p.pop = (none, { p with events := [] }) := by
      simp only [LiveQueue.pop, h.first?_eq_some he hfirst, h.stopped_eq, hs, if_true]
    rw [hp, hq']
    exact ⟨rfl, h.drain hd⟩
  · have hp : p.pop =
        (some e, { p.delete e.id with clock := e.due, dispatched := p.dispatched + 1 }) := by
      simp only [LiveQueue.pop, h.first?_eq_some ht.mem ht.first, h.stopped_eq, hs,
        Bool.false_eq_true, if_false]
    rw [hp, hq']
    exact ⟨rfl, h.take ht⟩

theorem peek_eq (h : Agrees q p) : p.first?.map Entry.due = q.peek.1 := by
  rw [EventQueue.peek]
  cases hs : q.settle.heap with
  | empty =>
    have hl : q.live = [] := by
      have hp := EventQueue.live_settle q
      rw [(EventQueue.drained_settle h.wellFormed hs).live] at hp
      exact hp.nil_eq.symm
    rw [h.first?_eq_none hl]
    rfl
  | node n e l r =>
    obtain ⟨he, hfirst⟩ := h.wellFormed.settle_top hs
    rw [h.first?_eq_some he hfirst]
    rfl

/-- Queues that agree answer every request alike, and agree afterwards. -/
theorem serve [Ranked ε] (h : Agrees q p) (r : Request ε) :
    (p.serve r).1 = (q.serve r).1 ∧ Agrees (q.serve r).2 (p.serve r).2 := by
  cases r with
  | scheduleAt time event => exact ⟨congrArg _ h.nextId, h.scheduleAt time event⟩
  | scheduleAfter delay event =>
    simp only [LiveQueue.serve, EventQueue.serve, EventQueue.scheduleAfter?, h.clock]
    cases q.clock.add? delay with
    | none => exact ⟨rfl, h⟩
    | some time => exact ⟨congrArg _ h.nextId, h.scheduleAt time event⟩
  | cancel id => exact ⟨congrArg _ (h.has_eq id), h.delete id⟩
  | isPending id => exact ⟨congrArg _ (h.has_eq id), h⟩
  | pop =>
    obtain ⟨heq, hag⟩ := h.pop
    exact ⟨by simp only [LiveQueue.serve, EventQueue.serve, heq], hag⟩
  | peek => exact ⟨congrArg _ h.peek_eq, h.settle⟩
  | size => exact ⟨congrArg _ h.length_eq, h⟩
  | stopAt time =>
    exact ⟨rfl, h.wellFormed.stopAt time, h.events, h.clock, h.nextId, rfl, h.dispatched⟩

theorem readings_eq [Ranked ε] (h : Agrees q p) (rs : List (Request ε)) :
    p.readings rs = q.readings rs := by
  induction rs generalizing q p with
  | nil => rfl
  | cons r rest ih =>
    obtain ⟨heq, hag⟩ := h.serve r
    simp only [LiveQueue.readings, EventQueue.readings, heq, hag.clock, hag.length_eq,
      hag.isEmpty_eq, hag.dispatched, ih hag]

end Agrees

/-- Whatever is asked of a new queue, in whatever order, it is seen to do just what a queue does
that holds live events only. -/
theorem readings_eq_live [Ranked ε] (rs : List (Request ε)) :
    (EventQueue.empty : EventQueue ε).readings rs = (LiveQueue.empty : LiveQueue ε).readings rs :=
  (Agrees.empty.readings_eq rs).symm

end SwarmFlight
