import SwarmFlight.Proofs.Queue.Awaited
import SwarmFlight.Proofs.Run.Effect
import SwarmFlight.Proofs.Run.Fleet
import SwarmFlight.Proofs.Run.Pending

/-!
# How a run goes on

A run `Moves` as an event is dispatched and has its effect, or as the start of an agent fails
whose address is refused, and it `Closes` as nothing is left before the stop time. What an
effect leaves alone is said here for the network (`Effect.isBound_eq`), the queue
(`Effect.numbers_of_ne`) and the agents (`Effect.roster_eq`).
-/

namespace SwarmFlight

/-- The index of the agent that an event is for. -/
def Event.index? : Event → Option Nat
  | .start i => some i
  | .duty i _ => some i
  | .arrival _ => none
  | .sample => none

namespace Simulation

open Run

variable {sim sim' sim₁ : Simulation} {i j : Nat} {c c' : Craft} {event : Event}

/-! ## Effects -/

theorem map_set_of_eq {β : Type} {f : Craft → β} {crafts : List Craft} (hc : crafts[i]? = some c)
    (h : f c' = f c) : (crafts.set i c').map f = crafts.map f := by
  obtain ⟨hlt, hget⟩ := List.getElem?_eq_some_iff.1 hc
  refine List.ext_getElem? fun j => ?_
  rw [List.map_set, h]
  by_cases hj : i = j
  · subst hj
    rw [List.getElem?_set_self (by simpa using hlt), List.getElem?_map, hc]
    rfl
  · rw [List.getElem?_set_ne hj]

theorem leads_arrived (sim : Simulation) (d : Datagram) : sim.Leads [] 0 (sim.arrived d) :=
  (leads_deliver sim d).1

/-- An effect schedules just the successors of its event. -/
theorem Effect.leads (h : sim.Effect event sim') :
    ∃ sent, sim.Leads (sim.successors event) sent sim' := by
  cases h with
  | @starts i c network craft fresh bind =>
    obtain ⟨hlink, houtbox, hrefused, -⟩ := Network.bind_ok bind
    refine ⟨0, rfl, rfl, rfl, rfl, ?_, hlink, hrefused, (congrArg Array.size houtbox).le⟩
    simp only [successors, craft]
    rfl
  | @broadcasts i c sent next craft running counts again =>
    refine ⟨c.agent.audience.length, rfl, rfl, rfl, rfl, ?_, rfl, rfl, ?_⟩
    · simp only [successors, craft, Act.interval, Duration.later_eq again]
      rfl
    · show (sim.world.network.sendAll _).outbox.size ≤ _
      simp [Network.sendAll, Agent.mail, scene]
  | @computes i c step craft running advance =>
    have htime : sim.world.clock.add? c.agent.settings.calculateInterval =
        some step.waypoint.time := Integrator.waypoint_time advance
    refine ⟨0, rfl, rfl, rfl, rfl, ?_, rfl, rfl, Nat.le_refl _⟩
    simp only [successors, craft, Act.interval, Duration.later_eq htime]
    rfl
  | turns => exact ⟨0, rfl, rfl, rfl, rfl, rfl, rfl, rfl, Nat.le_refl _⟩
  | @hears i c d =>
    have hd := sim.leads_arrived d
    exact ⟨0, rfl, rfl, rfl, rfl, hd.queue, hd.link, hd.refused, hd.outbox⟩
  | misses => exact ⟨0, sim.leads_arrived _⟩
  | samples again =>
    refine ⟨0, rfl, rfl, rfl, rfl, ?_, rfl, rfl, Nat.le_refl _⟩
    simp only [successors, Duration.later_eq again]
    rfl

theorem Effect.wellFormed (h : sim.Effect event sim') (hq : sim.world.queue.WellFormed) :
    sim'.world.queue.WellFormed := by
  obtain ⟨_, hleads⟩ := h.leads
  exact hleads.queue ▸ hq.scheduleAll

/-- Nobody changes who it is. -/
theorem Effect.roster_eq (h : sim.Effect event sim') : sim'.roster = sim.roster := by
  cases h with
  | starts craft => exact map_set_of_eq craft rfl
  | broadcasts craft => exact map_set_of_eq craft rfl
  | computes craft => exact map_set_of_eq craft rfl
  | turns craft => exact map_set_of_eq craft rfl
  | hears craft => exact map_set_of_eq craft rfl
  | misses => rfl
  | samples =>
    show (sim.crafts.map _).map _ = _
    rw [List.map_map]
    rfl

/-- A datagram that arrives is counted, and nothing else happens to the network. -/
theorem network_arrived (sim : Simulation) (d : Datagram) : (sim.arrived d).world.network =
    { sim.world.network with stats :=
        if sim.world.network.isBound d.receiver then
          { sim.world.network.stats with delivered := sim.world.network.stats.delivered + 1 }
        else
          { sim.world.network.stats with
            unreachable := sim.world.network.stats.unreachable + 1 } } := by
  unfold arrived World.deliver Network.deliver
  cases sim.world.network.isBound d.receiver <;> rfl

/-- A datagram that arrives is not reported. -/
theorem telemetry_arrived (sim : Simulation) (d : Datagram) :
    (sim.arrived d).world.telemetry = sim.world.telemetry := by
  unfold arrived World.deliver Network.deliver
  cases sim.world.network.isBound d.receiver <;> rfl

/-- An address is bound by the start of its agent only. -/
theorem Effect.isBound_eq (h : sim.Effect event sim') {a : Address}
    (hne : ∀ i c, event = .start i → sim.crafts[i]? = some c → c.agent.id ≠ a) :
    sim'.world.network.isBound a = sim.world.network.isBound a := by
  cases h with
  | starts craft _ bind =>
    obtain ⟨-, -, -, hbound⟩ := Network.bind_ok bind
    refine Bool.eq_iff_iff.2 ((hbound a).trans (or_iff_right ?_))
    exact (hne _ _ rfl craft).symm
  | hears => exact congrArg (·.isBound a) (sim.network_arrived _)
  | misses => exact congrArg (·.isBound a) (sim.network_arrived _)
  | _ => rfl

/-- Only broadcasts are sent. -/
theorem Effect.outbox_eq (h : sim.Effect event sim') (hne : ∀ i, event ≠ .duty i .broadcast) :
    sim'.world.network.outbox = sim.world.network.outbox := by
  cases h with
  | starts _ _ bind => exact (Network.bind_ok bind).2.1
  | broadcasts => exact absurd rfl (hne _)
  | @hears _ _ d => exact (congrArg Network.outbox (sim.network_arrived d)).trans rfl
  | @misses d => exact (congrArg Network.outbox (sim.network_arrived d)).trans rfl
  | _ => rfl

/-- A broadcast puts one datagram for each other agent into the network. -/
theorem Effect.outbox_broadcast (h : sim.Effect (.duty i .broadcast) sim')
    (hc : sim.crafts[i]? = some c) : sim'.world.network.outbox =
      sim.world.network.outbox ++ (c.agent.mail c.track sim.world.clock).toArray := by
  cases h with
  | broadcasts craft =>
    cases hc.symm.trans craft
    rfl

/-! ## What is scheduled -/

theorem index?_of_mem_successors {x : Instant × Event} (hx : x ∈ sim.successors event) :
    x.2.index? = event.index? := by
  rcases cases_of_mem_successors hx with ⟨h, rfl⟩ | ⟨_, _, h, rfl | ⟨rfl, -⟩⟩
  · rw [h]
  · exact (congrArg Event.index? h).trans rfl
  · rw [h]

/-- What is pending for other agents stays. -/
theorem Effect.numbers_of_ne (h : sim.Effect event sim') (hq : sim.world.queue.WellFormed)
    {other : Event} (hne : other.index? ≠ event.index?) :
    (sim'.world.queue.numbers other).Perm (sim.world.queue.numbers other) := by
  obtain ⟨_, hleads⟩ := h.leads
  rw [hleads.queue]
  refine hq.numbers_scheduleAll_of_ne fun x hx heq => hne ?_
  rw [← heq]
  exact index?_of_mem_successors hx

/-- A run in which nothing is in the network goes on as it is. -/
theorem flushed_of_empty (h : sim.world.network.outbox = #[]) : sim.flushed = sim := by
  obtain ⟨settings, ⟨queue, ⟨link, generator, bound, refused, outbox, stats⟩, telemetry, journal⟩,
    crafts, ledger, samplePeriod, stopTime, finished⟩ := sim
  cases h
  rfl

/-! ## Moves -/

/-- The run goes on : an entry is dispatched. -/
inductive Moves (sim : Simulation) (e : Entry Event) : Except Failure Bool → Simulation → Prop
  /-- An agent cannot start as its address is refused. -/
  | refused {q : EventQueue Event} {i : Nat} {c : Craft}
      (popped : sim.world.queue.pop = (some e, q)) (takes : sim.world.queue.Takes e q)
      (early : e.due < sim.stopTime) (event : e.event = .start i)
      (craft : sim.crafts[i]? = some c)
      (refused : sim.world.network.refused.contains c.agent.id) :
      Moves sim e (.error (.bindFailed c.agent.id)) (sim.withQueue q)
  /-- The event has its effect, and what was sent is on its way. -/
  | went {q : EventQueue Event} {sim₁ : Simulation}
      (popped : sim.world.queue.pop = (some e, q)) (takes : sim.world.queue.Takes e q)
      (early : e.due < sim.stopTime) (effect : (sim.withQueue q).Effect e.event sim₁)
      (inReach : sim₁.InReach) : Moves sim e (.ok true) sim₁.flushed

/-- Nothing is left before the stop time, and the run is over. -/
structure Closes (sim sim' : Simulation) : Prop where
  idle : sim.world.queue.pop.1 = none
  late : ∀ e ∈ sim.world.queue.live, sim.stopTime ≤ e.due
  drained : sim.world.queue.Drained sim'.world.queue
  finished : sim'.finished = true
  resembles : { sim with finished := true }.Resembles sim'
  crafts : sim'.crafts = sim.crafts.map Craft.retired

end Simulation

end SwarmFlight
