import SwarmFlight.Proofs.Queue.Live

/-!
# The events of one kind still to come

`awaited p` are the live entries whose events satisfy `p`. Taking an entry out takes it from
those that it belongs to (`Takes.awaited`), and scheduling adds an entry to them for each
event that satisfies `p` (`WellFormed.awaited_scheduleAll`). `numbers` are the numbers under
which one event is pending.
-/

namespace SwarmFlight

namespace EventQueue

variable {ε : Type} {q q' : EventQueue ε} {e : Entry ε} {p : ε → Bool}

/-- The live entries whose events satisfy `p`. -/
def awaited (q : EventQueue ε) (p : ε → Bool) : List (Entry ε) := q.live.filter fun e => p e.event

theorem mem_awaited : e ∈ q.awaited p ↔ e ∈ q.live ∧ p e.event := List.mem_filter

theorem Takes.awaited (h : q.Takes e q') (p : ε → Bool) :
    (q.awaited p).Perm (if p e.event then e :: q'.awaited p else q'.awaited p) := by
  have hp := h.live.filter fun e => p e.event
  rwa [List.filter_cons] at hp

theorem Takes.awaited_of_pos (h : q.Takes e q') (hp : p e.event) :
    (q.awaited p).Perm (e :: q'.awaited p) := by
  have ha := h.awaited p
  rwa [if_pos hp] at ha

theorem Takes.awaited_of_neg (h : q.Takes e q') (hp : p e.event = false) :
    (q.awaited p).Perm (q'.awaited p) := by
  have ha := h.awaited p
  rwa [hp] at ha

theorem Drained.awaited (h : q.Drained q') (p : ε → Bool) : q'.awaited p = [] := by
  rw [EventQueue.awaited, h.live]
  rfl

section Schedule

variable [Ranked ε] {events : List (Instant × ε)}

theorem WellFormed.awaited_scheduleAll (hq : q.WellFormed) (events : List (Instant × ε))
    (p : ε → Bool) : ((q.scheduleAll events).awaited p).Perm
      (((q.newEntries events).filter fun e => p e.event) ++ q.awaited p) := by
  have hlive : (q.scheduleAll events).live.Perm (q.newEntries events ++ q.live) :=
    hq.live_scheduleAll
  have ha := hlive.filter fun e => p e.event
  rwa [List.filter_append] at ha

theorem exists_of_mem_newEntries (h : e ∈ q.newEntries events) :
    ∃ x ∈ events, x.2 = e.event ∧ x.1.max q.clock = e.due := by
  have hmem := List.mem_map_of_mem (f := fun e => (e.due, e.event)) h
  rw [newEntries_map] at hmem
  obtain ⟨x, hx, heq⟩ := List.mem_map.1 hmem
  obtain ⟨hdue, hevent⟩ := Prod.mk.inj heq
  exact ⟨x, hx, hevent, hdue⟩

theorem le_id_of_mem_newEntries (h : e ∈ q.newEntries events) : q.nextId ≤ e.id := by
  induction events generalizing q with
  | nil => exact absurd h List.not_mem_nil
  | cons x rest ih =>
    rcases List.mem_cons.1 h with rfl | h
    · exact Nat.le_refl _
    · exact Nat.le_of_succ_le (ih h)

theorem nextId_le_scheduleAll : q.nextId ≤ (q.scheduleAll events).nextId := by
  induction events generalizing q with
  | nil => exact Nat.le_refl _
  | cons x rest ih => exact Nat.le_of_succ_le (ih (q := (q.scheduleAt x.1 x.2).2))

/-- The entries that some events get whose kind is awaited. -/
theorem newEntries_filter_map (q : EventQueue ε) (events : List (Instant × ε)) (p : ε → Bool) :
    ((q.newEntries events).filter fun e => p e.event).map (fun e => (e.due, e.event)) =
      (events.filter fun x => p x.2).map fun x => (x.1.max q.clock, x.2) := by
  have h := congrArg (List.filter fun x => p x.2) (newEntries_map q events)
  rw [List.filter_map, List.filter_map] at h
  exact h

/-- What is to come was to come before or has been scheduled. -/
theorem WellFormed.mem_live_scheduleAll (hq : q.WellFormed) (h : e ∈ (q.scheduleAll events).live) :
    e ∈ q.live ∨ ∃ x ∈ events, x.2 = e.event ∧ x.1.max q.clock = e.due := by
  rcases List.mem_append.1 (hq.live_scheduleAll.mem_iff.1 h) with h | h
  · exact .inr (exists_of_mem_newEntries h)
  · exact .inl h

/-- Scheduling other events leaves those awaited as they were. -/
theorem WellFormed.awaited_scheduleAll_of_none (hq : q.WellFormed)
    (h : ∀ x ∈ events, p x.2 = false) :
    ((q.scheduleAll events).awaited p).Perm (q.awaited p) := by
  have hnone : ((q.newEntries events).filter fun e => p e.event) = [] := by
    rw [List.filter_eq_nil_iff]
    intro e he hp
    obtain ⟨x, hx, heq, -⟩ := exists_of_mem_newEntries he
    rw [← heq, h x hx] at hp
    cases hp
  simpa [hnone] using hq.awaited_scheduleAll events p

theorem WellFormed.awaited_scheduleAt (hq : q.WellFormed) (time : Instant) {event : ε}
    (hp : p event) : ((q.scheduleAt time event).2.awaited p).Perm
      (q.newEntry time event :: q.awaited p) := by
  have ha := (hq.live_scheduleAt time event).filter fun e => p e.event
  rwa [List.filter_cons_of_pos (by exact hp)] at ha

end Schedule

/-! ## One event -/

section Numbers

variable [DecidableEq ε] {event : ε}

/-- The numbers under which an event is pending. -/
def numbers (q : EventQueue ε) (event : ε) : List EventId :=
  (q.awaited fun x => x = event).map Entry.id

theorem mem_numbers {id : EventId} :
    id ∈ q.numbers event ↔ ∃ e ∈ q.live, e.event = event ∧ e.id = id := by
  simp [numbers, awaited, and_assoc]

theorem Takes.numbers_self (h : q.Takes e q') :
    (q.numbers e.event).Perm (e.id :: q'.numbers e.event) :=
  (h.awaited_of_pos (by simp)).map Entry.id

theorem Takes.numbers_of_ne (h : q.Takes e q') (hne : e.event ≠ event) :
    (q.numbers event).Perm (q'.numbers event) :=
  (h.awaited_of_neg (by simpa using hne)).map Entry.id

variable [Ranked ε]

theorem WellFormed.numbers_scheduleAt (hq : q.WellFormed) (time : Instant) (event : ε) :
    ((q.scheduleAt time event).2.numbers event).Perm (q.nextId :: q.numbers event) :=
  (hq.awaited_scheduleAt time (by simp)).map Entry.id

theorem WellFormed.numbers_scheduleAll_of_ne (hq : q.WellFormed) {events : List (Instant × ε)}
    (h : ∀ x ∈ events, x.2 ≠ event) :
    ((q.scheduleAll events).numbers event).Perm (q.numbers event) :=
  (hq.awaited_scheduleAll_of_none fun x hx => by simpa using h x hx).map Entry.id

/-- An event is pending as often as it was scheduled. -/
theorem WellFormed.length_numbers_scheduleAll (hq : q.WellFormed) (events : List (Instant × ε))
    (event : ε) : ((q.scheduleAll events).numbers event).length =
      (events.map Prod.snd).count event + (q.numbers event).length := by
  have hevents : (q.newEntries events).map Entry.event = events.map Prod.snd := by
    have hmap := congrArg (List.map Prod.snd) (newEntries_map q events)
    simpa [Function.comp_def] using hmap
  have hlength := (hq.awaited_scheduleAll events fun x => x = event).length_eq
  rw [List.length_append, ← List.countP_eq_length_filter] at hlength
  rw [numbers, List.length_map, hlength, numbers, List.length_map, ← hevents, List.count,
    List.countP_map]
  rfl

end Numbers

end EventQueue

end SwarmFlight
