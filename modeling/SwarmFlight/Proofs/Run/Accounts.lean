import SwarmFlight.Proofs.Run.Links

/-!
# The accounts of a run

Datagrams are counted in five places : in the statistics of the network, in the tallies of
those that send and of those that receive, in the outbox and in the queue. The accounts agree
in every state (`accounts_balance`). While the run goes on, every datagram that was sent was
delivered, was lost, found nobody or is still to arrive, and when the run is over those that
were still to arrive are what is missing.

`Balanced` is the invariant. An effect counts what it sends and what has arrived
(`Effect.tallies`), and what is put on its way was in the outbox (`inTransit_flushed`).
-/

namespace SwarmFlight

/-- Whether an event is the arrival of a datagram. -/
def Event.isArrival : Event → Bool
  | .arrival _ => true
  | _ => false

theorem Event.exists_of_isArrival {event : Event} (h : event.isArrival) :
    ∃ d, event = .arrival d := by
  cases event with
  | arrival d => exact ⟨d, rfl⟩
  | _ => cases h

/-- The step in which a run ends. -/
structure Move.Last (m : Move) : Prop where
  unfinished : m.before.finished = false
  finished : m.after.finished = true

namespace Simulation

open Run

variable {first sim sim₁ sim' : Simulation} {moves : List Move} {e : Entry Event}
  {q : EventQueue Event} {r : Except Failure Bool} {event : Event} {i : Nat} {c c' : Craft}

/-- How many datagrams all agents have sent. -/
def sentByAll (sim : Simulation) : Nat := (sim.crafts.map (·.agent.sent.total)).sum

/-- How many beacons all agents have accepted. -/
def receivedByAll (sim : Simulation) : Nat := (sim.crafts.map (·.agent.received.total)).sum

/-- How many datagrams are still to arrive. -/
def inTransit (sim : Simulation) : Nat := (sim.world.queue.awaited Event.isArrival).length

/-- What has become of the datagrams. -/
abbrev stats (sim : Simulation) : Stats := sim.world.network.stats

/-- All accounts agree, with `due` datagrams that have neither arrived nor been lost. -/
structure Balanced (sim : Simulation) (due : Nat) : Prop where
  sent : sim.stats.sent = sim.sentByAll
  delivered : sim.stats.delivered = sim.receivedByAll
  conserved : sim.stats.sent =
    sim.stats.delivered + sim.stats.lost + sim.stats.unreachable + due

/-! ## Effects -/

theorem sum_map_set {crafts : List Craft} {f : Craft → Nat} {n : Nat}
    (hc : crafts[i]? = some c) (h : f c' = f c + n) :
    ((crafts.set i c').map f).sum = (crafts.map f).sum + n := by
  induction crafts generalizing i with
  | nil => cases hc
  | cons x rest ih =>
    cases i with
    | zero =>
      cases hc
      simp only [List.set_cons_zero, List.map_cons, List.sum_cons, h]
      omega
    | succ i =>
      simp only [List.set_cons_succ, List.map_cons, List.sum_cons, ih hc]
      omega

/-- What an effect does to the accounts : `posted` datagrams are sent, and those that arrive reach
their receiver or find nobody. -/
structure Tallies (sim sim₁ : Simulation) (posted reached missed : Nat) : Prop where
  stats : sim₁.stats = { sim.stats with
    sent := sim.stats.sent + posted
    delivered := sim.stats.delivered + reached
    unreachable := sim.stats.unreachable + missed }
  sent : sim₁.sentByAll = sim.sentByAll + posted
  received : sim₁.receivedByAll = sim.receivedByAll + reached
  outbox : sim₁.world.network.outbox.size = sim.world.network.outbox.size + posted

theorem Effect.tallies (h : sim.Effect event sim₁) : ∃ posted reached missed,
    sim.Tallies sim₁ posted reached missed ∧
      reached + missed = if event.isArrival then 1 else 0 := by
  cases h with
  | starts craft _ bind =>
    obtain ⟨_, rfl, -⟩ := Network.bind_eq_ok bind
    exact ⟨0, 0, 0, ⟨rfl, sum_map_set craft rfl, sum_map_set craft rfl, rfl⟩, rfl⟩
  | @broadcasts i c sent next craft running counts =>
    refine ⟨c.agent.audience.length, 0, 0, ⟨?_,
      sum_map_set craft (Tally.total_incrementAll counts), sum_map_set craft rfl, ?_⟩, rfl⟩
    · rw [← c.agent.length_mail c.track sim.world.clock]
      rfl
    · rw [← c.agent.length_mail c.track sim.world.clock]
      exact Array.size_append.trans (congrArg _ List.size_toArray)
  | computes craft =>
    exact ⟨0, 0, 0, ⟨rfl, sum_map_set craft rfl, sum_map_set craft rfl, rfl⟩, rfl⟩
  | turns craft =>
    exact ⟨0, 0, 0, ⟨rfl, sum_map_set craft rfl, sum_map_set craft rfl, rfl⟩, rfl⟩
  | @hears i c d _ _ _ craft _ _ bound _ _ counts =>
    have hnetwork := sim.network_arrived d
    rw [if_pos bound] at hnetwork
    exact ⟨0, 1, 0, ⟨congrArg Network.stats hnetwork, sum_map_set craft rfl,
      sum_map_set craft (Tally.total_increment counts),
      (congrArg (·.outbox.size) hnetwork).trans rfl⟩, rfl⟩
  | @misses d unbound =>
    have hnetwork := sim.network_arrived d
    rw [unbound] at hnetwork
    exact ⟨0, 0, 1, ⟨congrArg Network.stats hnetwork, rfl, rfl,
      (congrArg (·.outbox.size) hnetwork).trans rfl⟩, rfl⟩
  | samples =>
    refine ⟨0, 0, 0, ⟨rfl, congrArg List.sum ?_, congrArg List.sum ?_, rfl⟩, rfl⟩
    all_goals
      show (sim.crafts.map _).map _ = _
      rw [List.map_map]
      rfl

/-! ## Steps -/

/-- What is put on its way was in the outbox, and the rest of the outbox is lost. -/
theorem inTransit_flushed (hq : sim.world.queue.WellFormed) :
    sim.flushed.stats.lost + sim.flushed.inTransit =
      sim.stats.lost + sim.inTransit + sim.world.network.outbox.size := by
  have hall : ((sim.world.collect.1).filter fun d => (Event.arrival d).isArrival) =
      sim.world.collect.1 := List.filter_eq_self.2 fun _ _ => rfl
  have hdepart := congrArg List.length (sim.departures_map Event.isArrival)
  rw [List.length_map, List.length_map, hall] at hdepart
  have hlive := (awaited_flushed hq Event.isArrival).length_eq
  rw [List.length_append, hdepart] at hlive
  have hsorted := Network.length_sortOut sim.world.network.link.loss sim.world.network.generator
    sim.world.network.outbox.toList
  rw [Array.length_toList] at hsorted
  have hlost : sim.flushed.stats.lost = sim.stats.lost + (Network.sortOut
    sim.world.network.link.loss sim.world.network.generator
    sim.world.network.outbox.toList).lost.length := rfl
  have hthrough : sim.world.collect.1 = (Network.sortOut sim.world.network.link.loss
    sim.world.network.generator sim.world.network.outbox.toList).surviving := rfl
  rw [hthrough] at hlive
  unfold inTransit
  omega

/-- Every step keeps the accounts. -/
theorem Balanced.move (h : sim.Balanced sim.inTransit) (hu : sim.Underway)
    (hm : sim.Moves e r sim') : sim'.Balanced sim'.inTransit := by
  cases hm with
  | refused _ takes _ event =>
    have hsame := (takes.awaited_of_neg (p := Event.isArrival) (by rw [event]; rfl)).length_eq
    exact ⟨h.sent, h.delivered, h.conserved.trans (congrArg _ hsame)⟩
  | @went q sim₁ _ takes _ effect =>
    have hq : (sim.withQueue q).world.queue.WellFormed := takes.wellFormed
    obtain ⟨posted, reached, missed, ⟨hstats, hsent, hreceived, houtbox⟩, hone⟩ := effect.tallies
    have hlive := (effect.awaited hq fun _ => Event.exists_of_isArrival).length_eq
    have htaken := (takes.awaited Event.isArrival).length_eq
    have hflushed := inTransit_flushed (effect.wellFormed hq)
    have hempty : (sim.withQueue q).world.network.outbox = #[] := hu.empty
    rw [houtbox, hempty] at hflushed
    have htransit : sim.inTransit = sim₁.inTransit + (reached + missed) := by
      show (sim.world.queue.awaited Event.isArrival).length = _
      rw [htaken, hone, inTransit, hlive]
      split <;> rfl
    have hposted : sim₁.flushed.stats.sent = sim.stats.sent + posted := congrArg Stats.sent hstats
    have hreached : sim₁.flushed.stats.delivered = sim.stats.delivered + reached :=
      congrArg Stats.delivered hstats
    have hmissed : sim₁.flushed.stats.unreachable = sim.stats.unreachable + missed :=
      congrArg Stats.unreachable hstats
    have hlost : sim₁.stats.lost = sim.stats.lost := (congrArg Stats.lost hstats).trans rfl
    refine ⟨hposted.trans ?_, hreached.trans ?_, ?_⟩
    · rw [h.sent]
      exact hsent.symm
    · rw [h.delivered]
      exact hreceived.symm
    · have hbefore := h.conserved
      have hsize : (#[] : Array Datagram).size = 0 := rfl
      omega

/-! ## A whole run -/

theorem Balanced.refuse {due : Nat} (h : sim.Balanced due) (a : Address) :
    (sim.refuse a).Balanced due := by
  obtain ⟨_, heq⟩ := sim.refuse_eq a
  rw [heq]
  exact ⟨h.sent, h.delivered, h.conserved⟩

theorem inTransit_refuse (sim : Simulation) (a : Address) :
    (sim.refuse a).inTransit = sim.inTransit := by
  obtain ⟨_, heq⟩ := sim.refuse_eq a
  rw [heq]
  rfl

/-- What has not arrived when the run is over never does. -/
theorem Balanced.close (h : sim.Balanced sim.inTransit) (hc : sim.Closes sim') :
    sim'.Balanced sim.inTransit := by
  have hstats : sim'.stats = sim.stats := by
    obtain ⟨_, _, _, _, hsim'⟩ := hc.resembles
    rw [hsim']
  have hkept : ∀ {f : Craft → Nat}, (∀ c : Craft, f c.retired = f c) →
      (sim'.crafts.map f).sum = (sim.crafts.map f).sum := fun hf => by rw [hc.map_crafts hf]
  refine ⟨hstats ▸ h.sent.trans (hkept fun c => ?_).symm,
    hstats ▸ h.delivered.trans (hkept fun c => ?_).symm, hstats ▸ h.conserved⟩
  all_goals
    obtain ⟨_, _, heq⟩ := c.agent.retired_eq
    rw [Craft.retired, heq]

theorem Built.balanced {s : Settings} (h : first.Built s) : first.Balanced first.inTransit := by
  obtain ⟨shared, -, hcrafts⟩ := h.crafts
  have hnone : first.inTransit = 0 :=
    congrArg List.length (h.awaited fun _ => Event.exists_of_isArrival)
  have hstats : first.stats = {} := congrArg Network.stats h.network
  have hzero : ∀ {f : Craft → Nat}, (∀ index id position,
      f (firstCraft shared first.ledger index id position) = 0) →
      (first.crafts.map f).sum = 0 := by
    intro f hf
    refine List.sum_eq_zero fun n hn => ?_
    obtain ⟨c, hc, rfl⟩ := List.mem_map.1 hn
    obtain ⟨index, hindex⟩ := List.getElem?_of_mem hc
    obtain ⟨id, position, rfl⟩ := hcrafts index c hindex
    exact hf index id position
  rw [hnone]
  exact ⟨hstats ▸ (hzero fun _ _ _ => rfl).symm, hstats ▸ (hzero fun _ _ _ => rfl).symm,
    hstats ▸ rfl⟩

/-- The accounts of a run that goes on, and of one that is over. -/
theorem Travels.balanced (h : first.Travels moves sim) (hu : first.Underway)
    (hfirst : first.Balanced first.inTransit) :
    sim.Underway ∧ sim.Balanced sim.inTransit ∨ sim.finished = true ∧
      ∃ m ∈ moves, m.Last ∧ m.after.inTransit = 0 ∧ sim.Balanced m.before.inTransit := by
  refine h.induction (P := fun _ sim => sim.Balanced sim.inTransit)
    (Q := fun moves sim => ∃ m ∈ moves, m.Last ∧ m.after.inTransit = 0 ∧
      sim.Balanced m.before.inTransit) hu hfirst ?_ ?_ ?_ ?_ ?_
  · rintro - sim a - hb
    rw [inTransit_refuse]
    exact hb.refuse a
  · rintro - sim e r sim' hu hm - hb
    exact hb.move hu hm
  · rintro moves sim sim' hu hc hb
    exact ⟨_, List.mem_append_right _ (List.mem_singleton_self _), ⟨hu.unfinished, hc.finished⟩,
      congrArg List.length (hc.drained.awaited _), hb.close hc⟩
  · rintro moves sim a - ⟨m, hm, hlast, hnone, hb⟩
    exact ⟨m, hm, hlast, hnone, hb.refuse a⟩
  · rintro moves sim - ⟨m, hm, hlast, hnone, hb⟩
    exact ⟨m, List.mem_append_left _ hm, hlast, hnone, hb⟩

/-- No link delivers more than was sent on it. -/
theorem Travels.received_le (h : first.Travels moves sim) (hu : first.Underway) {l : Route}
    (hfirst : Linked l [] [] [] [] [] first) :
    sim.receivedFrom l.receiver l.source +
      (sim.world.queue.awaited (Event.links l.source l.target)).length ≤
        sim.sentTo l.sender l.target := by
  rcases h.linked hu hfirst with ⟨-, kept, under, flight, hl⟩ | ⟨hf, kept, horder, hrelays⟩
  · have hle := hl.order.length_le
    rw [List.length_append, hl.flying.length_eq] at hle
    rw [hl.relays.keptCount, hl.relays.sentCount, ← hl.live.length_eq]
    exact hle
  · have hnone : sim.world.queue.awaited (Event.links l.source l.target) = [] := by
      rw [EventQueue.awaited, h.live_eq_nil hu hf]
      rfl
    rw [hnone, hrelays.keptCount, hrelays.sentCount]
    exact horder.length_le

/-- The accounts of any run agree. What the network has sent and delivered is what the agents have
sent and accepted, no agent has accepted and is still to get more from another than that has sent
to it, and every datagram was delivered, was lost, found nobody or is still to arrive. When the
run is over, those that were still to arrive at its end are missing. -/
theorem accounts_balance {s : Settings} {positions : List Vec3} {telemetry : Telemetry}
    {j j' : Journal} (hbuilt : withPositions s positions telemetry j = .ok first j')
    (hrun : first.Travels moves sim) :
    sim.stats.sent = (sim.crafts.map (·.agent.sent.total)).sum ∧
    sim.stats.delivered = (sim.crafts.map (·.agent.received.total)).sum ∧
    (∀ (i k : Nat) (sender receiver : Craft), sim.crafts[i]? = some sender →
      sim.crafts[k]? = some receiver → i ≠ k →
      receiver.agent.received.get sender.agent.id +
        (sim.world.queue.awaited (Event.links sender.agent.id receiver.agent.id)).length ≤
          sender.agent.sent.get receiver.agent.id) ∧
    (sim.finished = false → sim.stats.sent =
      sim.stats.delivered + sim.stats.lost + sim.stats.unreachable + sim.inTransit) ∧
    (sim.finished = true → ∃ m ∈ moves, m.Last ∧ m.after.inTransit = 0 ∧ sim.stats.sent =
      sim.stats.delivered + sim.stats.lost + sim.stats.unreachable + m.before.inTransit) := by
  have hb := built_of_withPositions hbuilt
  have hu := hb.underway
  have hpairs : ∀ (i k : Nat) (sender receiver : Craft), sim.crafts[i]? = some sender →
      sim.crafts[k]? = some receiver → i ≠ k → receiver.agent.received.get sender.agent.id +
        (sim.world.queue.awaited (Event.links sender.agent.id receiver.agent.id)).length ≤
          sender.agent.sent.get receiver.agent.id := by
    intro i k sender receiver hi hk hne
    rw [← receivedFrom_eq hk, ← sentTo_eq hi]
    exact hrun.received_le hu (hb.linked (hrun.joins hu hi hk hne))
  rcases hrun.balanced hu hb.balanced with ⟨hgoes, hbalanced⟩ | ⟨hf, m, hm, hlast, hnone, hbalanced⟩
  · refine ⟨hbalanced.sent, hbalanced.delivered, hpairs, fun _ => hbalanced.conserved, fun hf => ?_⟩
    exact nomatch hgoes.unfinished.symm.trans hf
  · refine ⟨hbalanced.sent, hbalanced.delivered, hpairs, fun hunfinished => ?_, fun _ => ?_⟩
    · exact nomatch hf.symm.trans hunfinished
    · exact ⟨m, hm, hlast, hnone, hbalanced.conserved⟩

theorem accounts_balance_pair : ∃ first j' moves last,
    withPositions .pair [⟨0.0, 0.0, 0.0⟩, ⟨1.0, 0.0, 0.0⟩] (.recorder {})
      (Journal.ofThreshold none) = .ok first j' ∧ first.Travels moves last ∧
      last.finished = true ∧ ∃ m ∈ moves, m.Last ∧ last.stats.sent =
        last.stats.delivered + last.stats.lost + last.stats.unreachable + m.before.inTransit := by
  obtain ⟨first, j', moves, last, hbuilt, hrun, hfinished, -⟩ := exists_pair_run
  obtain ⟨-, -, -, -, hover⟩ := accounts_balance hbuilt hrun
  obtain ⟨m, hm, hlast, -, hsent⟩ := hover hfinished
  exact ⟨first, j', moves, last, hbuilt, hrun, hfinished, m, hm, hlast, hsent⟩

end Simulation

end SwarmFlight
