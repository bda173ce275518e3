import SwarmFlight.Proofs.Run.Trail

/-!
# Who sends to whom

`sentTo`, `receivedFrom` and `heardFrom` are what an agent has counted and noted of another
one, and `Event.links` are the arrivals of one at the other. A broadcast counts one datagram
more for each address it goes to (`Effect.sentTo_broadcast`), and only an arrival changes what
was received (`Effect.reception`).
-/

namespace SwarmFlight

/-- Whether an event is the arrival of a datagram from `a` to `b`. -/
def Event.links (a b : Address) : Event → Bool
  | .arrival d => d.sender = a && d.receiver = b
  | _ => false

theorem Event.links_arrival {a b : Address} {d : Datagram} :
    (Event.arrival d).links a b ↔ d.sender = a ∧ d.receiver = b := by
  simp [links]

theorem Event.exists_of_links {a b : Address} {event : Event} (h : event.links a b) :
    ∃ d, event = .arrival d ∧ d.sender = a ∧ d.receiver = b := by
  cases event with
  | arrival d => exact ⟨d, rfl, links_arrival.1 h⟩
  | _ => cases h

namespace Simulation

open Run

variable {sim sim₁ sim' : Simulation} {event : Event} {i k : Nat} {c : Craft} {a b : Address}

/-- How many datagrams the agent of an index has sent to an address. -/
def sentTo (sim : Simulation) (i : Nat) (b : Address) : Nat :=
  ((sim.crafts[i]?).map (·.agent.sent.get b)).getD 0

/-- How many beacons the agent of an index has accepted from an address. -/
def receivedFrom (sim : Simulation) (k : Nat) (a : Address) : Nat :=
  ((sim.crafts[k]?).map (·.agent.received.get a)).getD 0

/-- The last beacon that the agent of an index has heard from an address. -/
def heardFrom (sim : Simulation) (k : Nat) (a : Address) : Option Beacon :=
  ((sim.crafts[k]?).map (·.agent.table.get? a)).getD none

theorem sentTo_eq (hc : sim.crafts[i]? = some c) : sim.sentTo i b = c.agent.sent.get b := by
  rw [sentTo, hc]
  rfl

theorem receivedFrom_eq (hc : sim.crafts[k]? = some c) :
    sim.receivedFrom k a = c.agent.received.get a := by
  rw [receivedFrom, hc]
  rfl

theorem heardFrom_eq (hc : sim.crafts[k]? = some c) :
    sim.heardFrom k a = c.agent.table.get? a := by
  rw [heardFrom, hc]
  rfl

/-! ## Effects -/

/-- What a scene does not change of its agent it does not change of any. -/
theorem map_getElem?_played {β : Type} {f : Craft → β} {s : Scene Event}
    (hc : sim.crafts[i]? = some c) (h : f ⟨s.agent, s.track⟩ = f c) (k : Nat) :
    ((played sim i s).crafts[k]?).map f = (sim.crafts[k]?).map f := by
  show ((sim.crafts.set i _)[k]?).map f = _
  rw [← List.getElem?_map, ← List.getElem?_map, map_set_of_eq hc h]

theorem getElem?_played_self {s : Scene Event} (hc : sim.crafts[i]? = some c) :
    (played sim i s).crafts[i]? = some ⟨s.agent, s.track⟩ :=
  List.getElem?_set_self (List.getElem?_eq_some_iff.1 hc).1

theorem getElem?_played_of_ne {s : Scene Event} (h : i ≠ k) :
    (played sim i s).crafts[k]? = sim.crafts[k]? := List.getElem?_set_ne h

theorem map_getElem?_sampled {β : Type} {f : Craft → β} {next : Instant}
    (h : ∀ c : Craft, f { c with track := c.track.prune sim.world.clock } = f c) (k : Nat) :
    ((sim.sampled next).crafts[k]?).map f = (sim.crafts[k]?).map f := by
  show ((sim.crafts.map _)[k]?).map f = _
  rw [List.getElem?_map, Option.map_map]
  exact congrArg (Option.map · _) (funext h)

theorem sentTo_played {s : Scene Event} (hc : sim.crafts[i]? = some c)
    (h : s.agent.sent = c.agent.sent) (k : Nat) (b : Address) :
    (played sim i s).sentTo k b = sim.sentTo k b :=
  congrArg (·.getD 0) (map_getElem?_played hc (congrArg (Tally.get · b) h) k)

theorem receivedFrom_played {s : Scene Event} (hc : sim.crafts[i]? = some c)
    (h : s.agent.received = c.agent.received) (k : Nat) (a : Address) :
    (played sim i s).receivedFrom k a = sim.receivedFrom k a :=
  congrArg (·.getD 0) (map_getElem?_played hc (congrArg (Tally.get · a) h) k)

theorem heardFrom_played {s : Scene Event} (hc : sim.crafts[i]? = some c)
    (h : s.agent.table = c.agent.table) (k : Nat) (a : Address) :
    (played sim i s).heardFrom k a = sim.heardFrom k a :=
  congrArg (Option.getD · none) (map_getElem?_played hc (congrArg (PeerTable.get? · a) h) k)

theorem traffic_sampled (sim : Simulation) (next : Instant) (k : Nat) (a : Address) :
    (sim.sampled next).sentTo k a = sim.sentTo k a ∧
      (sim.sampled next).receivedFrom k a = sim.receivedFrom k a ∧
      (sim.sampled next).heardFrom k a = sim.heardFrom k a :=
  ⟨congrArg (·.getD 0) (map_getElem?_sampled (fun _ => rfl) k),
    congrArg (·.getD 0) (map_getElem?_sampled (fun _ => rfl) k),
    congrArg (Option.getD · none) (map_getElem?_sampled (fun _ => rfl) k)⟩

/-- The counts outlast the run. -/
theorem Closes.traffic (h : sim.Closes sim') (k : Nat) (a : Address) :
    sim'.sentTo k a = sim.sentTo k a ∧ sim'.receivedFrom k a = sim.receivedFrom k a ∧
      sim'.heardFrom k a = sim.heardFrom k a := by
  have hkept : ∀ {β : Type} {f : Craft → β}, (∀ c : Craft, f c.retired = f c) →
      (sim'.crafts[k]?).map f = (sim.crafts[k]?).map f := fun hf => by
    rw [← List.getElem?_map, ← List.getElem?_map, h.map_crafts hf]
  refine ⟨congrArg (·.getD 0) (hkept fun c => ?_), congrArg (·.getD 0) (hkept fun c => ?_),
    congrArg (Option.getD · none) (hkept fun c => ?_)⟩
  all_goals
    obtain ⟨_, _, heq⟩ := c.agent.retired_eq
    rw [Craft.retired, heq]

/-- A broadcast counts one datagram more for each address that it goes to. -/
theorem Effect.sentTo_broadcast (h : sim.Effect (.duty i .broadcast) sim₁)
    (hc : sim.crafts[i]? = some c) (b : Address) :
    sim₁.sentTo i b = sim.sentTo i b + c.agent.audience.count b := by
  cases h with
  | broadcasts craft running counts =>
    cases hc.symm.trans craft
    rw [sentTo_eq hc, sentTo_eq (getElem?_played_self hc)]
    exact Tally.get_incrementAll counts b

/-- Only its own broadcasts change what an agent has sent. -/
theorem Effect.sentTo_of_ne (h : sim.Effect event sim₁) (hne : event ≠ .duty i .broadcast)
    (b : Address) : sim₁.sentTo i b = sim.sentTo i b := by
  cases h with
  | @broadcasts j =>
    have hj : j ≠ i := fun hj => hne (hj ▸ rfl)
    rw [sentTo, getElem?_played_of_ne hj]
    rfl
  | starts craft => exact sentTo_played craft rfl i b
  | computes craft => exact sentTo_played craft rfl i b
  | @turns j c' _ _ craft =>
    exact sentTo_played (s := Act.turned (scene sim c')) craft rfl i b
  | hears craft => exact sentTo_played craft rfl i b
  | misses => rfl
  | samples => exact (traffic_sampled sim _ i b).1

/-- A datagram that reaches an agent is counted and taken down, and nothing else changes what it
has received and heard. -/
theorem Effect.reception (h : sim.Effect event sim₁) (fleet : sim.Fleet)
    (hc : sim.crafts[k]? = some c) (howner : c.agent.table.owner = c.agent.id) (a : Address) :
    ¬ (event.links a c.agent.id ∧ sim.world.network.isBound c.agent.id) ∧
      sim₁.receivedFrom k a = sim.receivedFrom k a ∧ sim₁.heardFrom k a = sim.heardFrom k a ∨
    ∃ d beacon, event = .arrival d ∧ d.sender = a ∧ d.receiver = c.agent.id ∧
      sim.world.network.isBound c.agent.id ∧ Beacon.decode d.payload = .ok beacon ∧
      sim₁.receivedFrom k a = sim.receivedFrom k a + 1 ∧ sim₁.heardFrom k a = some beacon := by
  cases h with
  | @hears j c' d beacon received table craft receiver running bound other decodes counts learns =>
    by_cases hj : j = k
    · subst hj
      cases hc.symm.trans craft
      have hc' : (sim.arrived d).crafts[j]? = some c := hc
      have hnow : ∀ s, (played (sim.arrived d) j s).crafts[j]? = some ⟨s.agent, s.track⟩ :=
        fun s => getElem?_played_self hc'
      have hget := PeerTable.get?_update (howner ▸ other) learns a
      have hcount := Tally.get_increment counts a
      rw [receivedFrom_eq (hnow _), heardFrom_eq (hnow _), receivedFrom_eq hc, heardFrom_eq hc]
      by_cases ha : a = d.sender
      · rw [if_pos ha] at hget hcount
        exact .inr ⟨d, beacon, rfl, ha.symm, receiver, receiver ▸ bound, decodes, hcount, hget⟩
      · rw [if_neg ha] at hget hcount
        refine .inl ⟨fun hlinks => ha ?_, hcount, hget⟩
        exact (Event.links_arrival.1 hlinks.1).1.symm
    · refine .inl ⟨fun hlinks => hj ?_, ?_, ?_⟩
      · refine fleet.index_inj craft hc (receiver.symm.trans ?_)
        exact (Event.links_arrival.1 hlinks.1).2
      · rw [receivedFrom, getElem?_played_of_ne hj]
        rfl
      · rw [heardFrom, getElem?_played_of_ne hj]
        rfl
  | @misses d unbound =>
    refine .inl ⟨fun hlinks => ?_, rfl, rfl⟩
    rw [(Event.links_arrival.1 hlinks.1).2, hlinks.2] at unbound
    cases unbound
  | starts craft =>
    exact .inl ⟨nofun, receivedFrom_played craft rfl k a, heardFrom_played craft rfl k a⟩
  | broadcasts craft =>
    exact .inl ⟨nofun, receivedFrom_played craft rfl k a, heardFrom_played craft rfl k a⟩
  | computes craft =>
    exact .inl ⟨nofun, receivedFrom_played craft rfl k a, heardFrom_played craft rfl k a⟩
  | @turns j c' _ _ craft =>
    have hs := receivedFrom_played (s := Act.turned (scene sim c')) craft rfl k a
    exact .inl ⟨nofun, hs, heardFrom_played (s := Act.turned (scene sim c')) craft rfl k a⟩
  | samples => exact .inl ⟨nofun, (traffic_sampled sim _ k a).2⟩

/-! ## What is on its way -/

section Flight

variable {p : Event → Bool}

/-- An effect puts nothing on its way. -/
theorem Effect.awaited (h : sim.Effect event sim₁) (hq : sim.world.queue.WellFormed)
    (hp : ∀ x, p x → ∃ d, x = .arrival d) :
    (sim₁.world.queue.awaited p).Perm (sim.world.queue.awaited p) := by
  obtain ⟨_, hleads⟩ := h.leads
  rw [hleads.queue]
  refine hq.awaited_scheduleAll_of_none fun x hx => Bool.eq_false_iff.2 fun hpx => ?_
  obtain ⟨d, hd⟩ := hp _ hpx
  exact arrival_not_mem_successors hx hd

/-- At first nothing is on its way. -/
theorem Built.awaited {s : Settings} (h : sim.Built s) (hp : ∀ x, p x → ∃ d, x = .arrival d) :
    sim.world.queue.awaited p = [] := by
  refine List.filter_eq_nil_iff.2 fun e he hpe => ?_
  obtain ⟨d, hd⟩ := hp _ hpe
  rcases h.event_of_live he with ⟨_, -, hstart⟩ | hsample
  · cases hd.symm.trans hstart
  · cases hd.symm.trans hsample

/-- When what is sent now arrives. -/
def arrivalTime (sim : Simulation) : Instant :=
  sim.world.clock.later sim.world.network.link.latency

theorem clock_flushed (sim : Simulation) : sim.flushed.world.clock = sim.world.clock :=
  EventQueue.clock_scheduleAll _ _

/-- What a flush puts on its way, of the arrivals that satisfy `p`. -/
def departures (sim : Simulation) (p : Event → Bool) : List (Entry Event) :=
  (sim.world.queue.newEntries (sim.world.collect.1.map fun d =>
    (sim.arrivalTime, .arrival d))).filter fun e => p e.event

theorem awaited_flushed (hq : sim.world.queue.WellFormed) (p : Event → Bool) :
    (sim.flushed.world.queue.awaited p).Perm
      (sim.departures p ++ sim.world.queue.awaited p) :=
  hq.awaited_scheduleAll _ p

/-- Every datagram that gets through and is asked for departs. -/
theorem departures_map (sim : Simulation) (p : Event → Bool) :
    (sim.departures p).map Entry.event =
      (sim.world.collect.1.filter fun d => p (.arrival d)).map Event.arrival := by
  have h := congrArg (List.map Prod.snd) (EventQueue.newEntries_filter_map sim.world.queue
    (sim.world.collect.1.map fun d => (sim.arrivalTime, .arrival d)) p)
  simpa [departures, List.filter_map, Function.comp_def] using h

/-- What departs arrives one latency from now. -/
theorem InReach.due_of_departs (h : sim.InReach) {e : Entry Event} (he : e ∈ sim.departures p) :
    e.due.nanos = sim.world.clock.nanos + sim.world.network.link.latency.nanos := by
  obtain ⟨x, hx, -, hdue⟩ := EventQueue.exists_of_mem_newEntries (List.mem_filter.1 he).1
  obtain ⟨d, hd, rfl⟩ := List.mem_map.1 hx
  rcases h with hnone | hroom
  · rw [hnone] at hd
    exact absurd hd List.not_mem_nil
  · have htime := Duration.nanos_later hroom
    have hle : sim.world.clock ≤ sim.arrivalTime := (Nat.le_add_right _ _).trans htime.ge
    rw [← hdue, ← htime]
    exact congrArg Duration.nanos (Duration.max_eq_left hle)

end Flight

end Simulation

end SwarmFlight
