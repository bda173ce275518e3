import SwarmFlight.Proofs.Run.History
import SwarmFlight.Proofs.Run.Station
import SwarmFlight.Proofs.Wire

/-!
# A run that is under way

`Underway` is what holds between two steps while the run goes on. It says that nothing can get
in the way of the next event : every agent stands at its place and knows nobody but the
agents of the run, no track lies ahead of the clock, every datagram on its way is the beacon
of one agent to another, and the ledger tells who has turned. So a step goes on or ends the
run (`Underway.step`), and what it leaves, if it goes on, is under way again.
-/

namespace SwarmFlight

/-- An agent has to do with the agents of a swarm only. -/
structure Agent.Knows (a : Agent) (swarm : List Address) : Prop where
  sent : ∀ b ∈ a.sent.counts.keys, b ∈ swarm
  received : ∀ b ∈ a.received.counts.keys, b ∈ swarm
  table : ∀ b ∈ a.table.beacons.keys, b ∈ swarm
  owner : a.table.owner = a.id

/-- The ledger tells when an agent is to turn, and whether it has. -/
def Agent.PlannedBy (a : Agent) (ledger : Option Ledger) : Prop :=
  a.settings.compromiseAt = ledger.bind (·.dueFor a.id) ∧
    ∀ l, ledger = some l → l.hasFired a.id = a.compromised

namespace Simulation

open Run

/-- A datagram carries the beacon of one agent of a run to another. -/
structure Posted (sim : Simulation) (d : Datagram) : Prop where
  sender : d.sender ∈ sim.ids
  receiver : d.receiver ∈ sim.ids
  other : d.sender ≠ d.receiver
  payload : ∃ beacon : Beacon, d.payload = beacon.encode

/-- No track has got ahead of the next step of its agent. -/
def Behind (sim : Simulation) : Prop :=
  ∀ (i : Nat) (c : Craft), sim.crafts[i]? = some c → ∀ e ∈ sim.world.queue.live,
    e.event = .start i ∨ e.event = .duty i .compute → c.track.latest.time ≤ e.due

/-- What holds between two steps of a run that goes on. -/
structure Underway (sim : Simulation) : Prop where
  unfinished : sim.finished = false
  sound : sim.Sound
  fleet : sim.Fleet
  stationed : sim.Stationed
  empty : sim.world.network.outbox = #[]
  within : ∀ e ∈ sim.world.queue.live, ∀ i, e.event.index? = some i → i < sim.crafts.length
  sample : ∃ id, sim.world.queue.numbers .sample = [id]
  behind : sim.Behind
  knows : ∀ (i : Nat) (c : Craft), sim.crafts[i]? = some c → c.agent.Knows sim.ids
  posted : ∀ e ∈ sim.world.queue.live, ∀ d, e.event = .arrival d → sim.Posted d
  planned : ∀ (i : Nat) (c : Craft), sim.crafts[i]? = some c → c.agent.PlannedBy sim.ledger

variable {sim sim₁ sim' : Simulation} {e : Entry Event} {q : EventQueue Event} {safe : Prop}

/-! ## One event -/

namespace Underway

theorem exists_craft (h : sim.Underway) (he : e ∈ sim.world.queue.live) {i : Nat}
    (hi : e.event.index? = some i) : ∃ c, sim.crafts[i]? = some c :=
  ⟨_, List.getElem?_eq_getElem (h.within e he i hi)⟩

/-- An address of an agent can be bound if it is not yet and nobody has refused it. -/
theorem exists_bind (h : sim.Underway) {i : Nat} {c : Craft} (hc : sim.crafts[i]? = some c)
    (hfree : sim.world.network.isBound c.agent.id = false)
    (hallowed : sim.world.network.refused.contains c.agent.id = false) :
    ∃ n, sim.world.network.bind c.agent.id = .ok n := by
  have hkeys : ∀ a ∈ sim.world.network.bound.keys, a ∈ sim.ids := by
    intro a ha
    obtain ⟨p, hp, -, rfl⟩ := h.sound.owned a (by simpa [Network.isBound, Registry.contains])
    obtain ⟨j, hj⟩ := List.getElem?_of_mem hp
    obtain ⟨c, hc, rfl⟩ := exists_craft_of_part hj
    exact Fleet.mem_ids hc
  obtain ⟨bound, hbound⟩ := Registry.exists_put? h.fleet.length_ids_le hkeys (Fleet.mem_ids hc) ()
  refine ⟨{ sim.world.network with bound }, ?_⟩
  simp [Network.bind, hallowed, hfree, hbound]

/-- A start has its effect unless the address is refused. -/
theorem dispatch_start (h : sim.Underway) (takes : sim.world.queue.Takes e q) {i : Nat}
    (hevent : e.event = .start i) : Returns safe (fun r sim₁ =>
      (r = .ok () ∧ (sim.withQueue q).Effect (.start i) sim₁) ∨
      ∃ c, sim.crafts[i]? = some c ∧ sim.world.network.refused.contains c.agent.id ∧
        r = .error (.bindFailed c.agent.id) ∧ sim₁ = sim.withQueue q)
      (dispatch (.start i) (sim.withQueue q)) := by
  obtain ⟨c, hc⟩ := h.exists_craft takes.mem (by rw [hevent]; rfl)
  have hc' : (sim.withQueue q).crafts[i]? = some c := hc
  obtain ⟨hfresh, -, hslots, hfree, -⟩ := (h.stationed i c hc).of_start takes.mem hevent
  cases hrefused : sim.world.network.refused.contains c.agent.id with
  | false =>
    obtain ⟨n, hn⟩ := h.exists_bind hc hfree hrefused
    exact (Run.dispatch_start hc' hfresh hslots hn).mono fun _ _ h => .inl h
  | true =>
    have hbind : sim.world.network.bind c.agent.id = .error (.bindFailed c.agent.id) := by
      rw [Network.bind, if_pos hrefused]
    refine (withCraft_returns hc' (Act.start_returns fun _ => hslots)).mono ?_
    rintro (f | ⟨⟩) - ⟨s, hs, rfl⟩
    · obtain ⟨rfl, hfails⟩ := hs
      cases hbind.symm.trans (hfails hfresh)
      exact .inr ⟨c, hc, hrefused, rfl, played_scene hc'⟩
    · cases hbind.symm.trans hs.bind

theorem dispatch_arrival (h : sim.Underway) (takes : sim.world.queue.Takes e q) {d : Datagram}
    (hevent : e.event = .arrival d) :
    Returns safe (fun r sim₁ => r = .ok () ∧ (sim.withQueue q).Effect (.arrival d) sim₁)
      (dispatch (.arrival d) (sim.withQueue q)) := by
  obtain ⟨hsender, hreceiver, hother, beacon, hpayload⟩ := h.posted e takes.mem d hevent
  obtain ⟨i, c, hc, hid⟩ := Fleet.exists_of_mem_ids hreceiver
  have hc' : (sim.withQueue q).crafts[i]? = some c := hc
  have hknows := h.knows i c hc
  obtain ⟨received, hreceived⟩ := Tally.exists_increment h.fleet.length_ids_le hknows.received
    hsender
  obtain ⟨table, htable⟩ := PeerTable.exists_update h.fleet.length_ids_le hknows.table hsender
    beacon
  refine Run.dispatch_arrival hc' (hid ▸ h.fleet.indexOf?_eq hc) hid.symm (fun hbound => ?_)
    (hid ▸ hother) (hpayload ▸ beacon.decode_encode) hreceived htable
  cases (h.stationed i c hc).stands with
  | waits _ _ _ free =>
    have hbound : sim.world.network.isBound d.receiver := hbound
    rw [← hid, show sim.world.network.isBound c.agent.id = false from free] at hbound
    cases hbound
  | runs running => exact running

theorem dispatch_duty (h : sim.Underway) (takes : sim.world.queue.Takes e q) {i : Nat}
    {duty : Duty} (hevent : e.event = .duty i duty)
    (hroom : safe → (sim.withQueue q).HasRoom q.clock) :
    Returns safe (fun r sim₁ => r = .ok () ∧ (sim.withQueue q).Effect (.duty i duty) sim₁)
      (dispatch (.duty i duty) (sim.withQueue q)) := by
  obtain ⟨c, hc⟩ := h.exists_craft takes.mem (by rw [hevent]; rfl)
  have hc' : (sim.withQueue q).crafts[i]? = some c := hc
  have hstation := h.stationed i c hc
  obtain ⟨hrun, -, hslot⟩ := hstation.of_duty takes.mem hevent
  cases duty with
  | broadcast =>
    obtain ⟨sent, hsent⟩ := Tally.exists_incrementAll h.fleet.length_ids_le (h.knows i c hc).sent
      fun b hb => ((h.fleet.mem_audience hc).1 hb).1
    exact dispatch_broadcast hc' hrun hsent hroom
  | compute =>
    refine dispatch_compute hc' hrun ?_ hroom
    show _ ≤ q.clock
    rw [takes.clock]
    exact h.behind i c hc e takes.mem (.inr hevent)
  | compromise =>
    cases hstation.stands with
    | waits fresh =>
      rw [show c.agent.part.stage = .running from hrun] at fresh
      cases fresh
    | runs _ _ _ _ _ turn =>
      obtain ⟨hrole, hplain, hat⟩ := turn (Option.isSome_of_eq_some hslot)
      have hdue := (h.planned i c hc).1
      cases hledger : sim.ledger with
      | none =>
        rw [hledger] at hdue
        rw [show c.agent.part.settings.compromiseAt = none from hdue] at hat
        cases hat
      | some l =>
        rw [hledger] at hdue
        have hplanned : (l.dueFor c.agent.id).isSome :=
          (congrArg Option.isSome hdue).symm.trans hat
        have hfired := ((h.planned i c hc).2 l hledger).trans hplain
        obtain ⟨l', hl'⟩ := Ledger.exists_fire hplanned hfired q.clock
        exact dispatch_compromise hc' hrun hrole hplain h.unfinished hledger hl'

/-- Nothing gets in the way of an event but a refused address. -/
theorem dispatch_goes (h : sim.Underway) (takes : sim.world.queue.Takes e q)
    (hroom : safe → (sim.withQueue q).HasRoom q.clock) : Returns safe (fun r sim₁ =>
      (r = .ok () ∧ (sim.withQueue q).Effect e.event sim₁) ∨
      ∃ i c, e.event = .start i ∧ sim.crafts[i]? = some c ∧
        sim.world.network.refused.contains c.agent.id ∧
        r = .error (.bindFailed c.agent.id) ∧ sim₁ = sim.withQueue q)
      (dispatch e.event (sim.withQueue q)) := by
  cases hevent : e.event with
  | start i =>
    refine (h.dispatch_start takes hevent).mono fun _ _ hr => hr.imp id ?_
    rintro ⟨c, hc⟩
    exact ⟨i, c, rfl, hc⟩
  | duty i duty => exact (h.dispatch_duty takes hevent hroom).mono fun _ _ => .inl
  | arrival d => exact (h.dispatch_arrival takes hevent).mono fun _ _ => .inl
  | sample =>
    exact (@dispatch_sample safe (sim.withQueue q) h.unfinished hroom).mono fun _ _ => .inl

/-- A step goes on, or nothing is left and the run is over. -/
theorem step_returns (h : sim.Underway) (hroom : safe → sim.HasRoom sim.stopTime) :
    Returns safe (fun r sim' => (∃ e, sim.Moves e r sim') ∨ r = .ok false ∧ sim.Closes sim')
      (Run.step sim) := by
  unfold Run.step
  simp only [Act.bind_apply, Act.get_apply, h.unfinished, Bool.false_eq_true, if_false, next_eq]
  rcases h.sound.queue.pop_cases with ⟨q, hpop, hdrained, hlate⟩ | ⟨e, q, hpop, htakes, hearly⟩
  · simp only [hpop]
    refine tearDown_returns.bind ?_ ?_
    · rintro - sim' ⟨-, hends⟩
      refine .inr ⟨rfl, by rw [hpop], fun x hx => ?_, hends.drained _ hdrained, hends.finished,
        ?_, hends.crafts⟩
      · rcases hlate with hnil | ⟨e, -, hfirst, hs⟩
        · rw [hnil] at hx
          exact absurd hx List.not_mem_nil
        · have hstops := EventQueue.stopsBy_mono (Entry.due_le_of_before (hfirst x hx)) hs
          exact (EventQueue.stopsBy_iff h.sound.stop).1 hstops
      · obtain ⟨_, _, _, _, hsim'⟩ := hends.resembles
        exact ⟨_, _, _, _, hsim'⟩
    · rintro f - ⟨⟨⟩, -⟩
  · have hlt := EventQueue.lt_of_not_stopsBy h.sound.stop hearly
    have hle : q.clock ≤ sim.stopTime := by
      rw [htakes.clock]
      exact Nat.le_of_lt hlt
    have hroom' : safe → (sim.withQueue q).HasRoom q.clock := fun hs =>
      have h := (hroom hs).mono hle
      ⟨h.duties, h.sample, h.latency⟩
    simp only [hpop]
    refine (h.dispatch_goes htakes hroom').bind ?_ ?_
    · rintro ⟨⟩ sim₁ (⟨-, heffect⟩ | ⟨_, _, -, -, -, ⟨⟩, -⟩)
      obtain ⟨_, hleads⟩ := heffect.leads
      have hclock : sim₁.world.clock = q.clock := hleads.clock
      refine (@flush_flushes safe sim₁ ?_).bind ?_ ?_
      · rw [hclock, hleads.link]
        exact fun hs => (hroom' hs).latency
      · rintro - - ⟨-, hreach, rfl⟩
        exact .inl ⟨e, .went hpop htakes hlt heffect hreach⟩
      · rintro f - ⟨⟨⟩, -⟩
    · rintro f - (⟨⟨⟩, -⟩ | ⟨i, c, hevent, hc, hrefused, ⟨⟩, rfl⟩)
      exact .inl ⟨e, .refused hpop htakes hlt hevent hc hrefused⟩

end Underway

/-! ## What an effect keeps -/

/-- Only a step lengthens a track, up to its end. -/
theorem Effect.latest {event : Event} (h : sim.Effect event sim₁) :
    ∀ (j : Nat) (c' : Craft), sim₁.crafts[j]? = some c' → ∃ c, sim.crafts[j]? = some c ∧
      (c'.track.latest = c.track.latest ∨ event = .duty j .compute ∧
        c'.track.latest.time = sim.world.clock.later c.agent.settings.calculateInterval) := by
  have hsame : ∀ (j : Nat) (c : Craft), sim.crafts[j]? = some c → ∃ c₀, sim.crafts[j]? = some c₀ ∧
      (c.track.latest = c₀.track.latest ∨ event = .duty j .compute ∧
        c.track.latest.time = sim.world.clock.later c₀.agent.settings.calculateInterval) :=
    fun j c hc => ⟨c, hc, .inl rfl⟩
  cases h with
  | starts craft => exact forall_played ⟨_, craft, .inl rfl⟩ fun j c _ => hsame j c
  | broadcasts craft => exact forall_played ⟨_, craft, .inl rfl⟩ fun j c _ => hsame j c
  | @computes i c step craft _ advance =>
    have htime : sim.world.clock.add? c.agent.settings.calculateInterval =
        some step.waypoint.time := Integrator.waypoint_time advance
    exact forall_played ⟨c, craft, .inr ⟨rfl, (Duration.later_eq htime).symm⟩⟩
      fun j c _ => hsame j c
  | turns craft => exact forall_played ⟨_, craft, .inl rfl⟩ fun j c _ => hsame j c
  | hears craft => exact forall_played ⟨_, craft, .inl rfl⟩ fun j c _ => hsame j c
  | misses => exact hsame
  | samples =>
    intro j c' hc'
    obtain ⟨c, hc, rfl⟩ := Option.map_eq_some_iff.1 (List.getElem?_map.symm.trans hc')
    refine ⟨c, hc, .inl ?_⟩
    show (c.track.prune _).latest = _
    unfold Track.prune
    split <;> rfl

theorem Underway.behind_of_effect (h : sim.Underway) (takes : sim.world.queue.Takes e q)
    (effect : (sim.withQueue q).Effect e.event sim₁) : sim₁.Behind := by
  intro j c' hc' x hx hevent
  obtain ⟨_, hleads⟩ := effect.leads
  obtain ⟨c, hc, hlatest⟩ := effect.latest j c' hc'
  have hc : sim.crafts[j]? = some c := hc
  rcases takes.wellFormed.mem_live_scheduleAll (hleads.queue ▸ hx) with hx | ⟨y, hy, hyx, hdue⟩
  · -- the entry was pending before, so it is not the next step of an agent that has just taken one
    have hx₀ : x ∈ sim.world.queue.live := takes.live.mem_iff.2 (List.mem_cons_of_mem _ hx)
    rcases hlatest with hsame | ⟨hcompute, -⟩
    · rw [hsame]
      exact h.behind j c hc x hx₀ hevent
    · obtain ⟨hrun, -, hslot⟩ := (h.stationed j c hc).of_duty takes.mem hcompute
      rcases hevent with hstart | hagain
      · cases hrun.symm.trans ((h.stationed j c hc).of_start hx₀ hstart).1
      · have hid := (h.stationed j c hc).books.get_eq hx₀ hagain
        exact absurd (Option.some.inj (hslot.symm.trans hid)) (takes.id_ne h.sound.queue hx).symm
  · have hle : e.due ≤ x.due := by
      rw [← hdue, ← takes.clock]
      exact Duration.le_max_right
    rcases hevent with hstart | hcompute
    · exact absurd (hyx.trans hstart) (start_not_mem_successors hy)
    · have hfrom := duty_of_mem_successors hy (hyx.trans hcompute)
      rcases hlatest with hsame | ⟨hevent, htime⟩
      · rw [hsame]
        refine Nat.le_trans (h.behind j c hc e takes.mem ?_) hle
        exact hfrom.imp id And.left
      · have hc' : (sim.withQueue q).crafts[j]? = some c := hc
        rw [hevent] at hy
        simp only [successors, hc', List.mem_singleton] at hy
        rw [htime, ← hdue, hy]
        exact Duration.le_max_left

theorem Underway.knows_of_effect (h : sim.Underway) (takes : sim.world.queue.Takes e q)
    (effect : (sim.withQueue q).Effect e.event sim₁) :
    ∀ (i : Nat) (c : Craft), sim₁.crafts[i]? = some c → c.agent.Knows sim₁.ids := by
  rw [show sim₁.ids = sim.ids from ids_eq_of_roster effect.roster_eq]
  generalize hevent : e.event = event at effect
  have hrest : ∀ (i j : Nat) (c : Craft), j ≠ i → sim.crafts[j]? = some c →
      c.agent.Knows sim.ids := fun _ j c _ => h.knows j c
  cases effect with
  | @starts i c _ craft =>
    have hk := h.knows i c craft
    exact forall_played ⟨hk.sent, hk.received, hk.table, hk.owner⟩ (hrest i)
  | @broadcasts i c sent next craft running counts =>
    have hk := h.knows i c craft
    refine forall_played ⟨fun b hb => ?_, hk.received, hk.table, hk.owner⟩ (hrest i)
    rcases (Tally.keys_incrementAll counts).1 hb with hb | hb
    · exact ((h.fleet.mem_audience craft).1 hb).1
    · exact hk.sent b hb
  | @computes i c _ craft =>
    have hk := h.knows i c craft
    exact forall_played ⟨hk.sent, hk.received, hk.table, hk.owner⟩ (hrest i)
  | @turns i c _ _ craft =>
    have hk := h.knows i c craft
    exact forall_played ⟨hk.sent, hk.received, hk.table, hk.owner⟩ (hrest i)
  | @hears i c d beacon received table craft receiver running bound other decodes counts learns =>
    have hk := h.knows i c craft
    have hsender := (h.posted e takes.mem d hevent).sender
    obtain ⟨howner, hput⟩ := PeerTable.update_eq_ok (hk.owner ▸ other) learns
    refine forall_played ⟨hk.sent, fun b hb => ?_, fun b hb => ?_, howner.trans hk.owner⟩ (hrest i)
    · rcases (Tally.keys_increment counts).1 hb with rfl | hb
      · exact hsender
      · exact hk.received b hb
    · rcases (Registry.mem_keys_put? hput).1 hb with rfl | hb
      · exact hsender
      · exact hk.table b hb
  | misses => exact h.knows
  | samples =>
    intro i c' hc'
    obtain ⟨c, hc, rfl⟩ := Option.map_eq_some_iff.1 (List.getElem?_map.symm.trans hc')
    exact h.knows i c hc

/-- A compromise that takes place is noted in the ledger, and its agent turns. -/
theorem Underway.planned_of_effect (h : sim.Underway)
    (effect : (sim.withQueue q).Effect e.event sim₁) :
    ∀ (i : Nat) (c : Craft), sim₁.crafts[i]? = some c → c.agent.PlannedBy sim₁.ledger := by
  generalize e.event = event at effect
  have hrest : ∀ (i j : Nat) (c : Craft), j ≠ i → sim.crafts[j]? = some c →
      c.agent.PlannedBy sim.ledger := fun _ j c _ => h.planned j c
  cases effect with
  | @turns i c ledger ledger' craft running follower plain planned fires =>
    have hfired := Ledger.hasFired_fire fires
    have hdue : ∀ a : Agent, a.PlannedBy (some ledger) →
        a.settings.compromiseAt = ledger'.dueFor a.id := fun a ha =>
      ha.1.trans (Ledger.dueFor_fire fires a.id).symm
    have hbefore := fun (j : Nat) (c : Craft) hc => planned ▸ h.planned j c hc
    refine forall_played (P := fun _ c => c.agent.PlannedBy (some ledger')) ?_ fun j c' hj hc' => ?_
    · refine ⟨hdue c.agent (hbefore i c craft), ?_⟩
      rintro _ ⟨⟩
      exact (hfired _).2 (.inl rfl)
    · refine ⟨hdue _ (hbefore j c' hc'), ?_⟩
      rintro _ ⟨⟩
      rw [← (hbefore j c' hc').2 ledger rfl]
      refine Bool.eq_iff_iff.2 ((hfired _).trans (or_iff_right ?_))
      exact fun hid => hj (h.fleet.index_inj hc' craft hid)
  | @starts i c _ craft => exact forall_played (h.planned i c craft) (hrest i)
  | @broadcasts i c _ _ craft => exact forall_played (h.planned i c craft) (hrest i)
  | @computes i c _ craft => exact forall_played (h.planned i c craft) (hrest i)
  | @hears i c _ _ _ _ craft => exact forall_played (h.planned i c craft) (hrest i)
  | misses => exact h.planned
  | samples =>
    intro i c' hc'
    obtain ⟨c, hc, rfl⟩ := Option.map_eq_some_iff.1 (List.getElem?_map.symm.trans hc')
    exact h.planned i c hc

/-- Taking a sample schedules the next one. -/
theorem Underway.sample_of_effect (h : sim.Underway) (takes : sim.world.queue.Takes e q)
    (effect : (sim.withQueue q).Effect e.event sim₁) :
    ∃ id, sim₁.world.queue.numbers .sample = [id] := by
  obtain ⟨id, hid⟩ := h.sample
  obtain ⟨_, hleads⟩ := effect.leads
  rw [hleads.queue]
  by_cases hevent : e.event = .sample
  · have hleft := takes.numbers_self
    rw [hevent, hid, List.singleton_perm] at hleft
    have hnext := takes.wellFormed.numbers_scheduleAt (q.clock.later sim.samplePeriod) Event.sample
    rw [(List.cons_eq_cons.1 hleft).2.symm, List.perm_singleton] at hnext
    rw [hevent]
    exact ⟨q.nextId, hnext⟩
  · have hleft := takes.numbers_of_ne hevent
    rw [hid, List.singleton_perm] at hleft
    refine ⟨id, List.perm_singleton.1 (.trans ?_ (List.Perm.of_eq hleft.symm))⟩
    refine takes.wellFormed.numbers_scheduleAll_of_ne fun x hx heq => ?_
    rcases cases_of_mem_successors hx with ⟨-, h⟩ | ⟨_, _, h, -⟩
    · exact hevent h
    · cases heq.symm.trans h

/-- Only a broadcast puts anything into the network. -/
theorem Underway.outbox_eq (h : sim.Underway) (effect : (sim.withQueue q).Effect e.event sim₁)
    (hne : ∀ i, e.event ≠ .duty i .broadcast) : sim₁.world.network.outbox = #[] :=
  (effect.outbox_eq hne).trans h.empty

/-- A broadcast puts the mail of its agent into the network, and nothing else is in it. -/
theorem Underway.outbox_broadcast (h : sim.Underway) (takes : sim.world.queue.Takes e q)
    (effect : (sim.withQueue q).Effect e.event sim₁) {i : Nat} {c : Craft}
    (hevent : e.event = .duty i .broadcast) (hc : sim.crafts[i]? = some c) :
    sim₁.world.network.outbox.toList = c.agent.mail c.track e.due := by
  rw [hevent] at effect
  have hempty : (sim.withQueue q).world.network.outbox = #[] := h.empty
  have hclock : (sim.withQueue q).world.clock = e.due := takes.clock
  rw [effect.outbox_broadcast hc, hempty, hclock, Array.empty_append, List.toList_toArray]

theorem Underway.posted_of_effect (h : sim.Underway) (takes : sim.world.queue.Takes e q)
    (effect : (sim.withQueue q).Effect e.event sim₁) :
    ∀ d ∈ sim₁.world.network.outbox.toList, sim.Posted d := by
  by_cases hevent : ∃ i, e.event = .duty i .broadcast
  · obtain ⟨i, hevent⟩ := hevent
    obtain ⟨c, hc⟩ := h.exists_craft takes.mem (by rw [hevent]; rfl)
    intro d hd
    rw [h.outbox_broadcast takes effect hevent hc] at hd
    obtain ⟨a, ha, rfl⟩ := List.mem_map.1 hd
    obtain ⟨hids, hne⟩ := (h.fleet.mem_audience hc).1 ha
    exact ⟨Fleet.mem_ids hc, hids, hne.symm, _, rfl⟩
  · rw [h.outbox_eq effect fun i hi => hevent ⟨i, hi⟩]
    exact fun d hd => absurd hd List.not_mem_nil

/-! ## What a step keeps -/

theorem Posted.of_roster {d : Datagram} (h : sim.Posted d) (hr : sim'.roster = sim.roster) :
    sim'.Posted d := by
  have hids := ids_eq_of_roster hr
  exact ⟨hids ▸ h.sender, hids ▸ h.receiver, h.other, h.payload⟩

/-- What is put on its way is all that is new in the queue. -/
theorem mem_live_flushed {x : Entry Event} (hq : sim.world.queue.WellFormed)
    (h : x ∈ sim.flushed.world.queue.live) : x ∈ sim.world.queue.live ∨
      ∃ d ∈ sim.world.network.outbox.toList, x.event = .arrival d := by
  refine (hq.mem_live_scheduleAll h).imp id ?_
  rintro ⟨y, hy, hyx, -⟩
  obtain ⟨d, hd, rfl⟩ := List.mem_map.1 hy
  exact ⟨d, (Network.surviving_sublist _ _ _).subset hd, hyx.symm⟩

/-- All but the arrivals stay as they are. -/
theorem awaited_flushed_of_none (hq : sim.world.queue.WellFormed) {p : Event → Bool}
    (hp : ∀ d, p (.arrival d) = false) :
    (sim.flushed.world.queue.awaited p).Perm (sim.world.queue.awaited p) := by
  refine hq.awaited_scheduleAll_of_none fun x hx => ?_
  obtain ⟨d, -, rfl⟩ := List.mem_map.1 hx
  exact hp d

theorem numbers_flushed (hq : sim.world.queue.WellFormed) {event : Event}
    (hne : ∀ d, event ≠ .arrival d) :
    (sim.flushed.world.queue.numbers event).Perm (sim.world.queue.numbers event) :=
  (awaited_flushed_of_none hq fun d => by simpa using (hne d).symm).map Entry.id

theorem dues_flushed (hq : sim.world.queue.WellFormed) {event : Event}
    (hne : ∀ d, event ≠ .arrival d) : (sim.flushed.dues event).Perm (sim.dues event) :=
  (awaited_flushed_of_none (p := fun x => x = event) hq fun d => by
    simpa using (hne d).symm).map Entry.due

/-- An event that has its effect leaves a run that is under way. -/
theorem Underway.of_effect (h : sim.Underway) (takes : sim.world.queue.Takes e q)
    (effect : (sim.withQueue q).Effect e.event sim₁) (hs : sim₁.flushed.Sound) :
    sim₁.flushed.Underway := by
  obtain ⟨_, hleads⟩ := effect.leads
  have hq : (sim.withQueue q).world.queue.WellFormed := takes.wellFormed
  have hq₁ := effect.wellFormed hq
  have hlength := length_eq_of_roster effect.roster_eq
  have hlive : ∀ {x}, x ∈ sim₁.world.queue.live → x ∈ sim.world.queue.live ∨
      ∃ y ∈ (sim.withQueue q).successors e.event, y.2 = x.event := fun {x} hx =>
    (hq.mem_live_scheduleAll (hleads.queue ▸ hx)).imp
      (fun hx => takes.live.mem_iff.2 (List.mem_cons_of_mem _ hx))
      fun ⟨y, hy, hyx, _⟩ => ⟨y, hy, hyx⟩
  refine ⟨hleads.finished.trans h.unfinished, hs,
    h.fleet.of_roster effect.roster_eq hleads.settings, ?_, rfl, ?_, ?_, ?_,
    fun i c hc => h.knows_of_effect takes effect i c hc, ?_,
    fun i c hc => h.planned_of_effect effect i c hc⟩
  · intro i c hc
    refine (stationed_of_effect h.stationed h.fleet takes effect i c hc).frame ?_ rfl
    rintro _ hevent
    exact numbers_flushed hq₁ fun d heq => by rw [heq] at hevent; cases hevent
  · intro x hx i hi
    show i < sim₁.crafts.length
    rw [hlength]
    rcases mem_live_flushed hq₁ hx with hx | ⟨d, -, hd⟩
    · rcases hlive hx with hx | ⟨y, hy, hyx⟩
      · exact h.within x hx i hi
      · rw [← hyx, index?_of_mem_successors hy] at hi
        exact h.within e takes.mem i hi
    · rw [hd] at hi
      cases hi
  · obtain ⟨id, hid⟩ := h.sample_of_effect takes effect
    exact ⟨id, List.perm_singleton.1 (hid ▸ numbers_flushed hq₁ nofun)⟩
  · intro i c hc x hx hevent
    rcases mem_live_flushed hq₁ hx with hx | ⟨d, -, hd⟩
    · exact h.behind_of_effect takes effect i c hc x hx hevent
    · rw [hd] at hevent
      rcases hevent with ⟨⟨⟩⟩ | ⟨⟨⟩⟩
  · intro x hx d hevent
    suffices hposted : sim.Posted d from hposted.of_roster effect.roster_eq
    rcases mem_live_flushed hq₁ hx with hx | ⟨d', hd, hd'⟩
    · rcases hlive hx with hx | ⟨y, hy, hyx⟩
      · exact h.posted x hx d hevent
      · exact absurd (hyx.trans hevent) (arrival_not_mem_successors hy)
    · cases hevent.symm.trans hd'
      exact h.posted_of_effect takes effect d hd

/-- An agent whose start fails waits in vain from then on. -/
theorem Underway.of_refused (h : sim.Underway) (takes : sim.world.queue.Takes e q) {i : Nat}
    (hevent : e.event = .start i) (hs : (sim.withQueue q).Sound) : (sim.withQueue q).Underway := by
  have hlive : ∀ {x}, x ∈ q.live → x ∈ sim.world.queue.live := fun {x} hx =>
    takes.live.mem_iff.2 (List.mem_cons_of_mem _ hx)
  refine ⟨h.unfinished, hs, h.fleet.of_roster rfl rfl, ?_, h.empty,
    fun x hx => h.within x (hlive hx), ?_, fun j c hc x hx => h.behind j c hc x (hlive hx), h.knows,
    fun x hx d hd => (h.posted x (hlive hx) d hd).of_roster rfl, h.planned⟩
  · intro j c hc
    have hstation := h.stationed j c hc
    by_cases hj : i = j
    · subst hj
      obtain ⟨hfresh, hplain, hslots, hfree, hstarts⟩ := hstation.of_start takes.mem hevent
      have hleft := takes.numbers_self
      rw [hevent, hstarts, List.singleton_perm] at hleft
      refine ⟨hstation.books.frame fun duty => (takes.numbers_of_ne ?_).symm, ?_⟩
      · rw [hevent]
        exact nofun
      · refine .waits hfresh hplain hslots hfree ?_
        show (q.numbers (.start i)).length ≤ 1
        rw [(List.cons_eq_cons.1 hleft).2.symm]
        exact Nat.zero_le 1
    · refine hstation.frame (fun event hi => (takes.numbers_of_ne ?_).symm) rfl
      rintro rfl
      rw [hevent] at hi
      exact hj (Option.some.inj hi)
  · obtain ⟨id, hid⟩ := h.sample
    have hleft : (sim.world.queue.numbers .sample).Perm (q.numbers .sample) :=
      takes.numbers_of_ne (by rw [hevent]; exact nofun)
    rw [hid, List.singleton_perm] at hleft
    exact ⟨id, hleft.symm⟩

/-- Every step of a run that is under way goes on and leaves one, or it ends the run. -/
theorem Underway.step (h : sim.Underway) {r : Except Failure Bool}
    (hstep : Run.step sim = returned r sim') :
    (∃ e, sim.Moves e r sim' ∧ sim'.Underway) ∨ r = .ok false ∧ sim.Closes sim' := by
  obtain ⟨_, hsteps⟩ := h.sound.steps_of_returned hstep
  have hs := hsteps.sound h.sound
  have hreturns := @Underway.step_returns sim False h False.elim
  rw [hstep] at hreturns
  refine hreturns.of_returned.imp ?_ id
  rintro ⟨e, hmoves⟩
  refine ⟨e, hmoves, ?_⟩
  cases hmoves with
  | refused _ takes _ event => exact h.of_refused takes event hs
  | went _ takes _ effect => exact h.of_effect takes effect hs

theorem Underway.withRefused (h : sim.Underway) (refused : Registry Unit) :
    (sim.withRefused refused).Underway :=
  ⟨h.unfinished, h.sound.withRefused refused, h.fleet.of_roster rfl rfl,
    fun i c hc => (h.stationed i c hc).frame (fun _ _ => .refl _) rfl, h.empty, h.within, h.sample,
    h.behind, h.knows, fun x hx d hd => (h.posted x hx d hd).of_roster rfl, h.planned⟩

/-! ## The beginning -/

section Built

variable {s : Settings}

theorem nodup_firstEvents (agents : Nat) (start : Instant) :
    ((firstEvents agents start).map Prod.snd).Nodup := by
  have hstarts : ((List.range (agents - 1)).map fun i => Event.start (i + 1)).Nodup :=
    List.nodup_range.map fun i j h => Nat.succ.inj (Event.start.inj h)
  simp [firstEvents, Function.comp_def, List.nodup_append, hstarts]

theorem start_mem_firstEvents {agents i : Nat} (hi : i < agents) (start : Instant) :
    Event.start i ∈ (firstEvents agents start).map Prod.snd := by
  cases i with
  | zero => exact List.mem_cons_self
  | succ i =>
    have hi : i < agents - 1 := by omega
    simp [firstEvents, hi]

/-- At first each agent is to start, and the first sample is to be taken. -/
theorem Built.mem_firstEvents (h : sim.Built s) {start : Instant} (hs : s.followerStart = .ok start)
    (he : e ∈ sim.world.queue.live) : (e.due, e.event) ∈ firstEvents sim.crafts.length start := by
  obtain ⟨start', hstart', hlive⟩ := h.live
  cases hs.symm.trans hstart'
  obtain ⟨x, hx, hevent, hdue⟩ := EventQueue.exists_of_mem_newEntries (hlive.mem_iff.1 he)
  rw [show x.1.max _ = x.1 from Duration.max_eq_left (Nat.zero_le _)] at hdue
  rw [← hevent, ← hdue]
  exact hx

theorem Built.event_of_live (h : sim.Built s) (he : e ∈ sim.world.queue.live) :
    (∃ i < sim.crafts.length, e.event = .start i) ∨ e.event = .sample := by
  obtain ⟨start, hstart, -⟩ := h.live
  have hmem := h.mem_firstEvents hstart he
  have hpos : 0 < sim.crafts.length := by
    rw [h.length_eq, Settings.agentCount, UInt32.size]
    omega
  simp only [firstEvents, List.cons_append, List.mem_cons, List.mem_append, List.mem_map,
    List.mem_range, List.not_mem_nil, or_false, Prod.mk.injEq] at hmem
  rcases hmem with ⟨-, hevent⟩ | ⟨i, hi, -, hevent⟩ | ⟨-, hevent⟩
  · exact .inl ⟨0, hpos, hevent⟩
  · exact .inl ⟨i + 1, by omega, hevent.symm⟩
  · exact .inr hevent

theorem Built.length_numbers (h : sim.Built s) (event : Event) : ∃ start,
    s.followerStart = .ok start ∧ (sim.world.queue.numbers event).length =
      ((firstEvents sim.crafts.length start).map Prod.snd).count event := by
  obtain ⟨start, hstart, hq⟩ := h.queue
  have hwf := (@EventQueue.wellFormed_empty Event).stopAt sim.stopTime
  refine ⟨start, hstart, ?_⟩
  rw [hq, hwf.length_numbers_scheduleAll]
  rfl

theorem Built.stationed (h : sim.Built s) : sim.Stationed := by
  intro i c hc
  obtain ⟨hfresh, hslots, hplain⟩ := h.fresh (List.mem_of_getElem? hc)
  refine ⟨fun duty => ?_, .waits hfresh hplain hslots ?_ ?_⟩
  · rw [hslots, show (({} : Slots).get duty).toList = [] by cases duty <;> rfl,
      List.eq_nil_iff_forall_not_mem]
    intro id hid
    obtain ⟨e, he, hevent, -⟩ := EventQueue.mem_numbers.1 hid
    rcases h.event_of_live he with ⟨_, -, hstart⟩ | hsample
    · cases hevent.symm.trans hstart
    · cases hevent.symm.trans hsample
  · rw [h.network]
    rfl
  · obtain ⟨start, -, hlength⟩ := h.length_numbers (.start i)
    rw [hlength]
    exact List.nodup_iff_count_le_one.1 (nodup_firstEvents _ start) _

theorem Built.underway (h : sim.Built s) : sim.Underway := by
  obtain ⟨shared, -, hcrafts⟩ := h.crafts
  refine ⟨h.finished, h.sound, h.fleet, h.stationed, by rw [h.network]; rfl,
    fun x hx i hi => ?_, ?_, fun i c hc x hx hevent => ?_, fun i c hc => ?_,
    fun x hx d hd => ?_, fun i c hc => ?_⟩
  · rcases h.event_of_live hx with ⟨j, hj, hstart⟩ | hsample
    · rw [hstart] at hi
      cases hi
      exact hj
    · rw [hsample] at hi
      cases hi
  · obtain ⟨start, -, hlength⟩ := h.length_numbers .sample
    have hone : ((firstEvents sim.crafts.length start).map Prod.snd).count Event.sample = 1 :=
      List.count_eq_one_of_mem (nodup_firstEvents _ start) (by simp [firstEvents])
    exact List.length_eq_one_iff.1 (hlength.trans hone)
  · obtain ⟨id, position, rfl⟩ := hcrafts i c hc
    exact Nat.zero_le _
  · obtain ⟨id, position, rfl⟩ := hcrafts i c hc
    exact ⟨fun b hb => absurd hb List.not_mem_nil, fun b hb => absurd hb List.not_mem_nil,
      fun b hb => absurd hb List.not_mem_nil, rfl⟩
  · rcases h.event_of_live hx with ⟨_, -, hstart⟩ | hsample
    · cases hd.symm.trans hstart
    · cases hd.symm.trans hsample
  · obtain ⟨id, position, rfl⟩ := hcrafts i c hc
    refine ⟨rfl, fun l hl => ?_⟩
    obtain ⟨c, due, ids, -, -, rfl⟩ := h.ledger l hl
    have hnone : (Ledger.empty due).Forall fun c => c.fired = none :=
      fun e he => absurd he List.not_mem_nil
    exact Ledger.hasFired_eq_false (Ledger.forall_planFrom hnone fun _ _ => rfl).1 _

end Built

end Simulation

end SwarmFlight
