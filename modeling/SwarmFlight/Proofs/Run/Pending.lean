import SwarmFlight.Proofs.Queue.Awaited
import SwarmFlight.Proofs.Run.Invariant

/-!
# When an event is pending

`dues` are the times at which an event is pending in a queue. What a step does to them is put
together from its parts : the entry that is taken out (`Takes.dues_self`, `Takes.dues_of_ne`),
the event that happens and the datagrams that are put on their way (`Carries.dues`).

`Touches` is what an event does to the agent of one index : the agent starts, it turns or it
is spared, and then nothing is scheduled for it but the duty that it has just done.
-/

namespace SwarmFlight

namespace EventQueue

variable {ε : Type} [DecidableEq ε] {q q' : EventQueue ε}

/-- The times at which an event is due, among some entries. -/
def duesIn (entries : List (Entry ε)) (event : ε) : List Instant :=
  (entries.filter (·.event = event)).map Entry.due

/-- The times at which an event is pending. -/
def dues (q : EventQueue ε) (event : ε) : List Instant := duesIn q.live event

theorem mem_dues {event : ε} {t : Instant} :
    t ∈ q.dues event ↔ ∃ e ∈ q.live, e.event = event ∧ e.due = t := by
  simp [dues, duesIn, and_assoc]

theorem dues_eq (q : EventQueue ε) (event : ε) :
    q.dues event = (q.awaited fun x => x = event).map Entry.due := rfl

theorem Takes.dues_self {e : Entry ε} (h : q.Takes e q') :
    (q.dues e.event).Perm (e.due :: q'.dues e.event) :=
  (h.awaited_of_pos (p := fun x => x = e.event) (by simp)).map Entry.due

theorem Takes.dues_of_ne {e : Entry ε} (h : q.Takes e q') {event : ε} (hne : e.event ≠ event) :
    (q.dues event).Perm (q'.dues event) :=
  (h.awaited_of_neg (p := fun x => x = event) (by simpa using hne)).map Entry.due

theorem Drained.dues (h : q.Drained q') (event : ε) : q'.dues event = [] := by
  rw [dues_eq, h.awaited]
  rfl

section Schedule

variable [Ranked ε] {events : List (Instant × ε)} {event : ε}

theorem WellFormed.dues_scheduleAll (hq : q.WellFormed) (events : List (Instant × ε)) (event : ε) :
    ((q.scheduleAll events).dues event).Perm
      ((events.filter (·.2 = event)).map (fun x => x.1.max q.clock) ++ q.dues event) := by
  have hnew := congrArg (List.map Prod.fst) (newEntries_filter_map q events (· = event))
  rw [List.map_map, List.map_map] at hnew
  have hall := (hq.awaited_scheduleAll events (· = event)).map Entry.due
  rw [List.map_append] at hall
  exact hall.trans (List.Perm.of_eq (congrArg (· ++ q.dues event) hnew))

/-- Scheduling other events leaves an event as it was. -/
theorem WellFormed.dues_scheduleAll_of_ne (hq : q.WellFormed) (h : ∀ x ∈ events, x.2 ≠ event) :
    ((q.scheduleAll events).dues event).Perm (q.dues event) :=
  (hq.awaited_scheduleAll_of_none (p := fun x => x = event) fun x hx => by
    simpa using h x hx).map Entry.due

end Schedule

end EventQueue

namespace Simulation

variable {sim sim' : Simulation} {index : Nat}

/-- The times at which an event is pending in a run. -/
def dues (sim : Simulation) (event : Event) : List Instant := sim.world.queue.dues event

theorem Leads.dues_of_ne {events : List (Instant × Event)} {sent : Nat} {event : Event}
    (h : sim.Leads events sent sim') (hq : sim.world.queue.WellFormed)
    (hne : ∀ x ∈ events, x.2 ≠ event) : (sim'.dues event).Perm (sim.dues event) := by
  rw [dues, h.queue]
  exact hq.dues_scheduleAll_of_ne hne

theorem Carries.dues {event : Event} (h : sim.Carries sim') (hq : sim.world.queue.WellFormed)
    (hne : ∀ d, event ≠ .arrival d) : (sim'.dues event).Perm (sim.dues event) := by
  obtain ⟨arrivals, -, hleads⟩ := h.leads
  refine hleads.dues_of_ne hq fun x hx => ?_
  obtain ⟨d, -, rfl⟩ := List.mem_map.1 hx
  exact (hne d).symm

theorem Carries.parts (h : sim.Carries sim') : sim'.parts = sim.parts := by
  rw [Simulation.parts, h.crafts]
  rfl

/-! ## What is scheduled for an agent -/

/-- What an event schedules : the next sample, or a duty, which comes of the start of its agent or
of the same duty done before. -/
theorem cases_of_mem_successors {event : Event} {x : Instant × Event}
    (hx : x ∈ sim.successors event) : x.2 = .sample ∧ event = .sample ∨
      ∃ i duty, x.2 = .duty i duty ∧
        (event = .start i ∨ event = .duty i duty ∧ duty ≠ .compromise) := by
  unfold successors at hx
  split at hx
  · split at hx
    · obtain ⟨_, -, rfl⟩ := List.mem_map.1 hx
      exact .inr ⟨_, _, rfl, .inl rfl⟩
    · cases hx
  · cases hx
  · rename_i hnot
    split at hx
    · rw [List.mem_singleton.1 hx]
      exact .inr ⟨_, _, rfl, .inr ⟨rfl, hnot⟩⟩
    · cases hx
  · cases hx
  · rw [List.mem_singleton.1 hx]
    exact .inl ⟨rfl, rfl⟩

theorem start_not_mem_successors {event : Event} {x : Instant × Event}
    (hx : x ∈ sim.successors event) : x.2 ≠ .start index := by
  rcases cases_of_mem_successors hx with ⟨h, -⟩ | ⟨_, _, h, -⟩ <;> rw [h] <;> exact nofun

theorem arrival_not_mem_successors {event : Event} {x : Instant × Event} {d : Datagram}
    (hx : x ∈ sim.successors event) : x.2 ≠ .arrival d := by
  rcases cases_of_mem_successors hx with ⟨h, -⟩ | ⟨_, _, h, -⟩ <;> rw [h] <;> exact nofun

/-- A duty comes of the start of its agent or of the same duty done before. -/
theorem duty_of_mem_successors {event : Event} {x : Instant × Event} {duty : Duty}
    (hx : x ∈ sim.successors event) (hduty : x.2 = .duty index duty) :
    event = .start index ∨ event = .duty index duty ∧ duty ≠ .compromise := by
  rcases cases_of_mem_successors hx with ⟨h, -⟩ | ⟨i, _, h, hevent⟩
  · cases hduty.symm.trans h
  · cases hduty.symm.trans h
    exact hevent

/-- What an event does to the agent of an index; `ok` tells whether it succeeds. -/
inductive Touches (sim : Simulation) (index : Nat) (event : Event) (ok : Bool)
    (sim' : Simulation) : Prop
  /-- The agent keeps its part. -/
  | spared (part : sim'.parts[index]? = sim.parts[index]?)
      (start : event = .start index → ok = false)
      (turn : event = .duty index .compromise → ∀ p, sim.parts[index]? = some p →
        p.stage = .running → p.compromised || p.role.isLeader)
      (starts : (sim'.dues (.start index)).Perm (sim.dues (.start index)))
      (duties : ∀ duty, (event = .duty index duty → duty = .compromise) →
        (sim'.dues (.duty index duty)).Perm (sim.dues (.duty index duty)))
  /-- The agent starts. -/
  | starts {p : Part} (event : event = .start index) (before : sim.parts[index]? = some p)
      (fresh : p.stage = .uninitialized)
      (part : sim'.parts[index]? = some { p with stage := .running })
      (dues : ∀ due, p.role = .follower → p.settings.compromiseAt = some due →
        (sim'.dues (.duty index .compromise)).Perm
          (sim.world.clock.max due :: sim.dues (.duty index .compromise)))
  /-- The agent turns. -/
  | turns {p : Part} (event : event = .duty index .compromise)
      (before : sim.parts[index]? = some p) (running : p.stage = .running)
      (part : sim'.parts[index]? = some { p with role := .leader, compromised := true })
      (dues : (sim'.dues (.duty index .compromise)).Perm (sim.dues (.duty index .compromise)))

theorem exists_craft_of_part {p : Part} (hp : sim.parts[index]? = some p) :
    ∃ c, sim.crafts[index]? = some c ∧ c.agent.part = p := by
  rw [Run.getElem?_parts] at hp
  exact Option.map_eq_some_iff.1 hp

/-- Some other agent changes its part. -/
theorem touches_of_ne {j : Nat} {c' : Craft} {event : Event} {ok : Bool} {sent : Nat}
    {events : List (Instant × Event)} (hq : sim.world.queue.WellFormed) (hj : j ≠ index)
    (hevent : event = .start j ∨ event = .duty j .compromise)
    (hcrafts : sim'.crafts = sim.crafts.set j c') (hleads : sim.Leads events sent sim')
    (hwithin : events.Sublist (sim.successors event)) :
    sim.Touches index event ok sim' := by
  have hstart : event ≠ .start index := by
    rcases hevent with rfl | rfl
    · exact fun h => hj (Event.start.inj h)
    · exact nofun
  have hduty : ∀ duty, event ≠ .duty index duty := by
    rcases hevent with rfl | rfl
    · exact nofun
    · exact fun duty h => hj (Event.duty.inj h).1
  refine .spared ?_ (fun h => absurd h hstart) (fun h => absurd h (hduty _)) ?_ fun duty _ => ?_
  · rw [parts_of_set hcrafts, List.getElem?_set_ne hj]
  · exact hleads.dues_of_ne hq fun x hx => start_not_mem_successors (hwithin.subset hx)
  · refine hleads.dues_of_ne hq fun x hx hx' => ?_
    rcases duty_of_mem_successors (hwithin.subset hx) hx' with h | ⟨h, -⟩
    · exact hstart h
    · exact hduty duty h

/-- The first duties of a follower with a compromise to come have that among them. -/
theorem filter_firstDuties {a : Agent} {due : Instant} (hrole : a.role = .follower)
    (hdue : a.settings.compromiseAt = some due) (now : Instant) :
    ((Act.firstDuties a now).map fun x => (x.1, Event.duty index x.2)).filter
      (·.2 = .duty index .compromise) = [(now.max due, .duty index .compromise)] := by
  simp [Act.firstDuties, hrole, hdue, Role.isLeader]

/-- Whatever happens does one of these things to an agent. -/
theorem Happens.touches {event : Event} {r : Except Failure Unit} (h : sim.Happens event r sim')
    (hq : sim.world.queue.WellFormed) (index : Nat) : sim.Touches index event r.toBool sim' := by
  cases h with
  | kept leads within crafts bound start turn =>
    refine .spared ?_ (fun he => ?_) (fun he p hp hrun => ?_) ?_ fun duty hduty => ?_
    · rw [parts, map_part_of_keeps crafts]
      rfl
    · obtain ⟨f, rfl, -⟩ := (start index he).2
      rfl
    · obtain ⟨c, hc, rfl⟩ := exists_craft_of_part hp
      exact turn index c he hc hrun
    · exact leads.dues_of_ne hq fun x hx => start_not_mem_successors (within.subset hx)
    · by_cases he : event = .start index
      · rw [(start index he).1]
      · refine leads.dues_of_ne hq fun x hx hx' => ?_
        rcases duty_of_mem_successors (within.subset hx) hx' with h | ⟨h, hne⟩
        · exact he h
        · exact hne (hduty h)
  | @started j c c' _ craft fresh leads crafts part bind =>
    by_cases hj : j = index
    · subst hj
      have hpart : sim.parts[j]? = some c.agent.part := by
        rw [Run.getElem?_parts, craft]
        rfl
      refine .starts rfl hpart fresh ?_ fun due hrole hdue => ?_
      · obtain ⟨hlt, -⟩ := List.getElem?_eq_some_iff.1 hpart
        rw [parts_of_set crafts, List.getElem?_set_self hlt, part]
      · have hperm := hq.dues_scheduleAll (sim.successors (.start j)) (.duty j .compromise)
        rw [← leads.queue] at hperm
        simp only [successors, craft, filter_firstDuties hrole hdue] at hperm
        rw [List.map_singleton, World.clock, Duration.max_eq_left Duration.le_max_left] at hperm
        exact hperm
    · exact touches_of_ne hq hj (.inl rfl) crafts leads (.refl _)
  | @turned j c c' _ _ craft running leads crafts part bound =>
    by_cases hj : j = index
    · subst hj
      have hpart : sim.parts[j]? = some c.agent.part := by
        rw [Run.getElem?_parts, craft]
        rfl
      refine .turns rfl hpart running ?_
        (leads.dues_of_ne hq fun x hx => absurd hx List.not_mem_nil)
      obtain ⟨hlt, -⟩ := List.getElem?_eq_some_iff.1 hpart
      rw [parts_of_set crafts, List.getElem?_set_self hlt, part]
    · exact touches_of_ne hq hj (.inr rfl) crafts leads (List.nil_sublist _)

/-- What a step does to the agent of an index, once the entry that it dispatches has been taken out
of the queue. -/
theorem Steps.touches {r : Except Failure Bool} {e : Entry Event} (h : sim.Steps r (some e) sim')
    (index : Nat) : ∃ q, sim.world.queue.Takes e q ∧
      (sim.withQueue q).Touches index e.event r.toBool sim' := by
  obtain ⟨q, r₁, sim₁, -, -, takes, -, happens, rfl, carries⟩ := h.dispatched
  obtain ⟨events, -, hleads⟩ := happens.leads
  have hq : (sim.withQueue q).world.queue.WellFormed := takes.wellFormed
  have hq₁ : sim₁.world.queue.WellFormed := by
    rw [hleads.queue]
    exact hq.scheduleAll
  have hdue : ∀ duty, (sim'.dues (.duty index duty)).Perm (sim₁.dues (.duty index duty)) :=
    fun duty => carries.dues hq₁ (by rintro _ ⟨⟩)
  have hok : (r₁.map fun _ => true).toBool = r₁.toBool := by cases r₁ <;> rfl
  refine ⟨q, takes, ?_⟩
  rw [hok]
  cases happens.touches hq index with
  | spared part start turn starts duties =>
    refine .spared (carries.parts ▸ part) start turn ?_ fun duty h =>
      (hdue duty).trans (duties duty h)
    exact (carries.dues hq₁ (by rintro _ ⟨⟩)).trans starts
  | starts event before fresh part dues =>
    exact .starts event before fresh (carries.parts ▸ part) fun due hrole hplanned =>
      (hdue _).trans (dues due hrole hplanned)
  | turns event before running part dues =>
    exact .turns event before running (carries.parts ▸ part) ((hdue _).trans dues)

end Simulation

end SwarmFlight
