import SwarmFlight.Proofs.Run.Outcomes
import SwarmFlight.Proofs.Run.Step

/-!
# What becomes of a run, exactly

`Effect` is what an event does to a run in which nothing gets in its way : the scene of one
agent is played (`Act.begun`, `Act.announced`, `Act.steered`, `Act.turned`, `Act.heard`), a
datagram finds nobody, or all positions are sampled. `flushed` is the run after what was sent
has been put on its way.
-/

namespace SwarmFlight

namespace Simulation

open Run

/-- A run in which a datagram has arrived. -/
def arrived (sim : Simulation) (d : Datagram) : Simulation :=
  { sim with world := (sim.world.deliver d).2 }

/-- A run whose positions were sampled, with the next sample at `next`. -/
def sampled (sim : Simulation) (next : Instant) : Simulation :=
  let now := sim.world.clock
  let report (world : World Event) (c : Craft) : World Event :=
    world.reportPosition ⟨now, c.agent.id, c.track.positionAt now⟩
  { sim with
    world := { sim.crafts.foldl report sim.world with
      queue := (sim.world.queue.scheduleAt next .sample).2
      network := sim.world.network }
    crafts := sim.crafts.map fun c => { c with track := c.track.prune now } }

/-- What an event does to a run if nothing gets in its way. -/
inductive Effect (sim : Simulation) : Event → Simulation → Prop
  /-- An agent starts. -/
  | starts {i : Nat} {c : Craft} {network : Network} (craft : sim.crafts[i]? = some c)
      (fresh : c.agent.stage = .uninitialized)
      (bind : sim.world.network.bind c.agent.id = .ok network) :
      Effect sim (.start i) (played sim i (Act.begun (scene sim c) (.duty i) network))
  /-- An agent broadcasts. -/
  | broadcasts {i : Nat} {c : Craft} {sent : Tally} {next : Instant}
      (craft : sim.crafts[i]? = some c) (running : c.agent.stage = .running)
      (counts : c.agent.sent.incrementAll c.agent.audience = .ok sent)
      (again : sim.world.clock.add? c.agent.settings.packetInterval = some next) :
      Effect sim (.duty i .broadcast)
        (played sim i (Act.announced (scene sim c) (.duty i) sent next))
  /-- An agent takes a step. -/
  | computes {i : Nat} {c : Craft} {step : MotionStep} (craft : sim.crafts[i]? = some c)
      (running : c.agent.stage = .running)
      (advance : c.agent.advance c.track sim.world.clock = some step) :
      Effect sim (.duty i .compute) (played sim i (Act.steered (scene sim c) (.duty i) step))
  /-- A follower turns, as planned. -/
  | turns {i : Nat} {c : Craft} {ledger ledger' : Ledger} (craft : sim.crafts[i]? = some c)
      (running : c.agent.stage = .running) (follower : c.agent.role = .follower)
      (plain : c.agent.compromised = false) (planned : sim.ledger = some ledger)
      (fires : ledger.fire c.agent.id sim.world.clock = .ok (true, ledger')) :
      Effect sim (.duty i .compromise)
        { played sim i (Act.turned (scene sim c)) with ledger := some ledger' }
  /-- A datagram is accepted. -/
  | hears {i : Nat} {c : Craft} {d : Datagram} {beacon : Beacon} {received : Tally}
      {table : PeerTable} (craft : sim.crafts[i]? = some c) (receiver : d.receiver = c.agent.id)
      (running : c.agent.stage = .running) (bound : sim.world.network.isBound d.receiver)
      (other : d.sender ≠ c.agent.id) (decodes : Beacon.decode d.payload = .ok beacon)
      (counts : c.agent.received.increment d.sender = .ok received)
      (learns : c.agent.table.update d.sender beacon = .ok table) :
      Effect sim (.arrival d)
        (played (sim.arrived d) i (Act.heard (scene (sim.arrived d) c) received table))
  /-- A datagram finds nobody. -/
  | misses {d : Datagram} (unbound : sim.world.network.isBound d.receiver = false) :
      Effect sim (.arrival d) (sim.arrived d)
  /-- The positions are sampled. -/
  | samples {next : Instant} (again : sim.world.clock.add? sim.samplePeriod = some next) :
      Effect sim .sample (sim.sampled next)

/-- A run in which everything that was sent is on its way, unless it was lost. -/
def flushed (sim : Simulation) : Simulation :=
  let next := sim.world.clock.later sim.world.network.link.latency
  { sim with world := { sim.world.collect.2 with
    queue := sim.world.queue.scheduleAll (sim.world.collect.1.map fun d => (next, .arrival d)) } }

/-- Nothing is on its way, or it arrives within the range of the clock. -/
def InReach (sim : Simulation) : Prop :=
  sim.world.collect.1 = [] ∨
    sim.world.clock.nanos + sim.world.network.link.latency.nanos < durationLimit

end Simulation

namespace Run

open Simulation

variable {safe : Prop} {sim : Simulation} {i : Nat} {c : Craft}

/-! ## Events -/

theorem dispatch_start (hc : sim.crafts[i]? = some c) (hfresh : c.agent.stage = .uninitialized)
    (hslots : c.agent.slots = {}) {network : Network}
    (hbind : sim.world.network.bind c.agent.id = .ok network) :
    Returns safe (fun r sim' => r = .ok () ∧ sim.Effect (.start i) sim')
      (dispatch (.start i) sim) := by
  have hact : Returns safe (fun r s => r = .ok () ∧ s = Act.begun (scene sim c) (.duty i) network)
      (Act.start (.duty i) (scene sim c)) := by
    rw [Act.start_eq (s := scene sim c) hfresh hslots hbind]
    exact ⟨rfl, rfl⟩
  refine (withCraft_returns hc hact).mono ?_
  rintro - - ⟨-, ⟨rfl, rfl⟩, rfl⟩
  exact ⟨rfl, .starts hc hfresh hbind⟩

theorem dispatch_broadcast {sent : Tally} (hc : sim.crafts[i]? = some c)
    (hrun : c.agent.stage = .running)
    (hsent : c.agent.sent.incrementAll c.agent.audience = .ok sent)
    (hroom : safe → sim.HasRoom sim.world.clock) :
    Returns safe (fun r sim' => r = .ok () ∧ sim.Effect (.duty i .broadcast) sim')
      (dispatch (.duty i .broadcast) sim) := by
  have hact : Returns safe (fun r s => r = .ok () ∧ ∃ next,
      sim.world.clock.add? c.agent.settings.packetInterval = some next ∧
        s = Act.announced (scene sim c) (.duty i) sent next)
      (Act.handle (.duty i) .broadcast (scene sim c)) := by
    simp only [Act.handle, Act.bind_apply, Act.agent_apply, scene_agent, hrun, ne_eq,
      not_true_eq_false, if_false]
    exact Act.broadcast_announces hsent fun h =>
      (hroom h).duties c (List.mem_of_getElem? hc) .broadcast
  refine (withCraft_returns hc hact).mono ?_
  rintro - - ⟨-, ⟨rfl, next, hnext, rfl⟩, rfl⟩
  exact ⟨rfl, .broadcasts hc hrun hsent hnext⟩

theorem dispatch_compute (hc : sim.crafts[i]? = some c) (hrun : c.agent.stage = .running)
    (hbehind : c.track.latest.time ≤ sim.world.clock)
    (hroom : safe → sim.HasRoom sim.world.clock) :
    Returns safe (fun r sim' => r = .ok () ∧ sim.Effect (.duty i .compute) sim')
      (dispatch (.duty i .compute) sim) := by
  have hact : Returns safe (fun r s => r = .ok () ∧ ∃ step,
      c.agent.advance c.track sim.world.clock = some step ∧
        s = Act.steered (scene sim c) (.duty i) step)
      (Act.handle (.duty i) .compute (scene sim c)) := by
    simp only [Act.handle, Act.bind_apply, Act.agent_apply, scene_agent, hrun, ne_eq,
      not_true_eq_false, if_false]
    exact Act.compute_steers (s := scene sim c) hbehind fun h =>
      (hroom h).duties c (List.mem_of_getElem? hc) .compute
  refine (withCraft_returns hc hact).mono ?_
  rintro - - ⟨-, ⟨rfl, step, hstep, rfl⟩, rfl⟩
  exact ⟨rfl, .computes hc hrun hstep⟩

theorem dispatch_compromise (hc : sim.crafts[i]? = some c) (hrun : c.agent.stage = .running)
    (hrole : c.agent.role = .follower) (hplain : c.agent.compromised = false)
    (hunfinished : sim.finished = false) {ledger ledger' : Ledger}
    (hledger : sim.ledger = some ledger)
    (hfire : ledger.fire c.agent.id sim.world.clock = .ok (true, ledger')) :
    Returns safe (fun r sim' => r = .ok () ∧ sim.Effect (.duty i .compromise) sim')
      (dispatch (.duty i .compromise) sim) := by
  have hact : Returns safe (fun r s => r = .ok true ∧ s = Act.turned (scene sim c))
      ((do if (← Act.agent).stage = .running then Act.turn else return false : Act Event Bool)
        (scene sim c)) := by
    simp only [Act.bind_apply, Act.agent_apply, scene_agent, if_pos hrun, Act.turn_eq, hplain,
      hrole, Role.isLeader, Bool.or_self, Bool.false_eq_true, if_false]
    exact ⟨rfl, rfl⟩
  show Returns safe _ (compromise i sim)
  refine (withCraft_returns hc hact).bind ?_ ?_
  · rintro fired - ⟨-, ⟨⟨⟩, rfl⟩, rfl⟩
    obtain ⟨hlt, -⟩ := List.getElem?_eq_some_iff.1 hc
    have hcraft : (played sim i (Act.turned (scene sim c))).crafts[i]? =
        some ⟨(Act.turned (scene sim c)).agent, c.track⟩ := List.getElem?_set_self hlt
    have hnow : (played sim i (Act.turned (scene sim c))).now = sim.world.clock := by
      unfold now
      rw [if_neg (by exact (Bool.eq_false_iff.1 hunfinished))]
      rfl
    have hledger' : (played sim i (Act.turned (scene sim c))).ledger = some ledger := hledger
    have hfire' : ledger.fire (Act.turned (scene sim c)).agent.id sim.world.clock =
        .ok (true, ledger') := hfire
    simp only [if_true, Act.bind_apply, Act.get_apply, hledger', hcraft, hnow, hfire',
      Act.modify_apply]
    exact ⟨rfl, .turns hc hrun hrole hplain hledger hfire⟩
  · rintro f - ⟨-, ⟨⟨⟩, -⟩, -⟩

theorem dispatch_arrival {d : Datagram} {beacon : Beacon} {received : Tally} {table : PeerTable}
    (hc : sim.crafts[i]? = some c) (hindex : sim.indexOf? d.receiver = some i)
    (hreceiver : d.receiver = c.agent.id)
    (hbound : sim.world.network.isBound d.receiver → c.agent.stage = .running)
    (hother : d.sender ≠ c.agent.id) (hbeacon : Beacon.decode d.payload = .ok beacon)
    (hreceived : c.agent.received.increment d.sender = .ok received)
    (htable : c.agent.table.update d.sender beacon = .ok table) :
    Returns safe (fun r sim' => r = .ok () ∧ sim.Effect (.arrival d) sim')
      (dispatch (.arrival d) sim) := by
  show Returns safe _ (arrive d sim)
  simp only [arrive, Act.bind_apply, Act.modifyGet_apply]
  cases hb : sim.world.network.isBound d.receiver with
  | false =>
    have hnone : (sim.world.deliver d).1 = none := by
      simp [World.deliver, Network.deliver, hb]
    rw [hnone]
    exact ⟨rfl, .misses hb⟩
  | true =>
    have hsome : (sim.world.deliver d).1 = some d := by
      simp [World.deliver, Network.deliver, hb]
    have hindex' : (sim.arrived d).indexOf? d.receiver = some i := hindex
    have hrun := hbound hb
    rw [hsome]
    have hreach : { sim with world := (sim.world.deliver d).2 } = sim.arrived d := rfl
    simp only [Act.bind_apply, Act.get_apply, hreach, hindex']
    have hact : Returns safe (fun r s => r = .ok true ∧
        s = Act.heard (scene (sim.arrived d) c) received table)
        (Act.receive d.sender d.payload (scene (sim.arrived d) c)) := by
      rw [Act.receive_eq (s := scene (sim.arrived d) c) hrun hother hbeacon hreceived htable]
      exact ⟨rfl, rfl⟩
    have hc' : (sim.arrived d).crafts[i]? = some c := hc
    refine (withCraft_returns hc' hact).of_discard ?_
    rintro - - ⟨-, ⟨rfl, rfl⟩, rfl⟩
    exact ⟨rfl, .hears hc hreceiver hrun hb hother hbeacon hreceived htable⟩

theorem dispatch_sample (hunfinished : sim.finished = false)
    (hroom : safe → sim.HasRoom sim.world.clock) :
    Returns safe (fun r sim' => r = .ok () ∧ sim.Effect .sample sim')
      (dispatch .sample sim) := by
  show Returns safe _ (sample sim)
  have hnow : sim.now = sim.world.clock := if_neg (Bool.eq_false_iff.1 hunfinished)
  simp only [sample, Act.bind_apply, Act.modify_apply, Act.get_apply, hnow]
  have hw := foldl_reportPosition
    (fun c => ⟨sim.world.clock, c.agent.id, c.track.positionAt sim.world.clock⟩)
    sim.crafts sim.world
  generalize hworld : sim.crafts.foldl (fun w c => w.reportPosition
    ⟨sim.world.clock, c.agent.id, c.track.positionAt sim.world.clock⟩) sim.world = w at hw ⊢
  obtain ⟨queue, network, telemetry, journal⟩ := w
  obtain ⟨rfl, rfl⟩ := hw
  refine (schedule_schedules ?_).mono ?_
  · exact fun hs => (hroom hs).sample
  rintro - - ⟨rfl, next, hnext, rfl⟩
  have hsampled : sim.Effect .sample (sim.sampled next) := .samples hnext
  rw [sampled, hworld] at hsampled
  exact ⟨rfl, hsampled⟩

/-! ## Flushing -/

theorem flush_flushes (hsafe : safe →
    sim.world.clock.nanos + sim.world.network.link.latency.nanos < durationLimit) :
    Returns safe (fun r sim' => r = .ok () ∧ sim.InReach ∧ sim' = sim.flushed) (flush sim) := by
  simp only [flush, Act.bind_apply, Act.modifyGet_apply, Act.get_apply]
  by_cases hrange : sim.world.clock.nanos + sim.world.network.link.latency.nanos < durationLimit
  · refine (@forM_schedule_returns safe { sim with world := sim.world.collect.2 }
      sim.world.network.link.latency sim.world.collect.1 fun _ => hrange).mono ?_
    rintro - - ⟨rfl, rfl⟩
    exact ⟨rfl, .inr hrange, rfl⟩
  · cases hsurvivors : sim.world.collect.1 with
    | nil =>
      refine ⟨rfl, .inl hsurvivors, ?_⟩
      rw [flushed, hsurvivors]
      rfl
    | cons d rest =>
      refine (@schedule_schedules safe { sim with world := sim.world.collect.2 } _ _ hsafe).bind
        ?_ ?_
      · rintro - - ⟨-, t, ht, -⟩
        exact absurd (Duration.isSome_add?_iff.1 (Option.isSome_of_eq_some ht)) hrange
      · rintro f - ⟨⟨⟩, -⟩

end Run

end SwarmFlight
