import Std.Data.HashSet
import SwarmFlight.Duration
import SwarmFlight.EventQueue.Heap

/-!
# The event queue

Everything that happens in a run is an event on one queue in virtual time. Events are taken
out by due time; of events due at the same time the one of lower rank goes first, and of
those the one that was scheduled first (`Entry.before`). Taking an event out moves the clock
to its due time. An event scheduled for the past is due now. Events due at or after the stop
time never take place : the first one that is reached empties the queue.

A cancelled event stays in the heap and is passed over when it comes to the top
(`Heap.dropWhile`); which events are still to come is kept in a set of their numbers.
-/

namespace SwarmFlight

/-- Kinds of events, ranked among those due at the same time. -/
class Ranked (ε : Type) where
  /-- Events of lower rank take place first. -/
  rank : ε → Nat

/-- The number of a scheduled event, in order of scheduling. -/
abbrev EventId := Nat

/-- An event that has been scheduled. -/
structure Entry (ε : Type) where
  due : Instant
  rank : Nat
  id : EventId
  event : ε

/-- Whether `a` takes place before `b`. -/
def Entry.before {ε : Type} (a b : Entry ε) : Bool :=
  a.due < b.due ||
    (a.due = b.due && (a.rank < b.rank || (a.rank = b.rank && a.id ≤ b.id)))

namespace Heap

/-- The heap without the elements that come first and for which `dead` holds. -/
def dropWhile {α : Type} (le : α → α → Bool) (dead : α → Bool) : Heap α → Heap α
  | empty => empty
  | node n x l r =>
    if dead x then dropWhile le dead (merge le l r) else node n x l r
  termination_by h => h.size
  decreasing_by simp [size]

end Heap

/-- Events to come, a clock and a time at which everything stops. -/
structure EventQueue (ε : Type) where
  clock : Instant
  heap : Heap (Entry ε)
  /-- Numbers of the events that are still to take place. -/
  pending : Std.HashSet EventId
  /-- The number of the next event to be scheduled. -/
  nextId : EventId
  stopTime : Option Instant
  /-- How many events have taken place. -/
  dispatched : Nat

namespace EventQueue

variable {ε : Type}

/-- Nothing scheduled, at the start of time. -/
def empty : EventQueue ε where
  clock := .zero
  heap := .empty
  pending := ∅
  nextId := 0
  stopTime := none
  dispatched := 0

instance : Inhabited (EventQueue ε) := ⟨empty⟩

/-- Schedule an event for an instant, or for now if the instant has passed. -/
def scheduleAt [Ranked ε] (q : EventQueue ε) (time : Instant) (event : ε) :
    EventId × EventQueue ε :=
  let entry : Entry ε := ⟨time.max q.clock, Ranked.rank event, q.nextId, event⟩
  (q.nextId,
    { q with
      heap := q.heap.insert Entry.before entry
      pending := q.pending.insert q.nextId
      nextId := q.nextId + 1 })

/-- Schedule an event for `delay` from now on, if there is such an instant. -/
def scheduleAfter? [Ranked ε] (q : EventQueue ε) (delay : Duration) (event : ε) :
    Option (EventId × EventQueue ε) :=
  (q.clock.add? delay).map fun time => q.scheduleAt time event

/-- Whether an event is still to take place. -/
def isPending (q : EventQueue ε) (id : EventId) : Bool := q.pending.contains id

/-- Call an event off; tells whether it was still to take place. -/
def cancel (q : EventQueue ε) (id : EventId) : Bool × EventQueue ε :=
  (q.isPending id, { q with pending := q.pending.erase id })

/-- Let nothing take place at `time` or later. -/
def stopAt (q : EventQueue ε) (time : Instant) : EventQueue ε := { q with stopTime := some time }

/-- The number of events to come. -/
def size (q : EventQueue ε) : Nat := q.pending.size

/-- Whether no event is to come. -/
def isEmpty (q : EventQueue ε) : Bool := q.pending.isEmpty

/-- The queue without the cancelled events at the top of its heap. -/
def settle (q : EventQueue ε) : EventQueue ε :=
  { q with heap := q.heap.dropWhile Entry.before fun e => !q.isPending e.id }

/-- Whether the stop time has come by then. -/
def stopsBy (q : EventQueue ε) (time : Instant) : Bool :=
  match q.stopTime with
  | some stop => stop ≤ time
  | none => false

/-- Take out the next event and move the clock to it. -/
def pop (q : EventQueue ε) : Option (Entry ε) × EventQueue ε :=
  let q := q.settle
  match q.heap with
  | .empty => (none, q)
  | .node _ entry left right =>
    if q.stopsBy entry.due then
      (none, { q with heap := .empty, pending := ∅ })
    else
      (some entry,
        { q with
          heap := Heap.merge Entry.before left right
          pending := q.pending.erase entry.id
          clock := entry.due
          dispatched := q.dispatched + 1 })

/-- The due time of the next event. -/
def peek (q : EventQueue ε) : Option Instant × EventQueue ε :=
  let q := q.settle
  (q.heap.top?.map Entry.due, q)

end EventQueue

end SwarmFlight
