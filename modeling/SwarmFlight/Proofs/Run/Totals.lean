import Mathlib.Algebra.BigOperators.Group.Finset.Basic
import SwarmFlight.Proofs.Run.Accounts
import SwarmFlight.Proofs.Run.Timetable

/-!
# The totals of a run

`Counted` is what the counters of a run have to do with its history : every event that was
dispatched is counted once, every arrival as delivered or unreachable and every compromise in
the ledger, and an agent has sent one datagram to each other agent for every broadcast.

With the timetable that gives a whole run in closed form (`keeps_timetable`) : the times at which
everything takes place, what every agent sends and how many events are dispatched.
-/

namespace SwarmFlight

/-- Whether an event is the compromise of an agent. -/
def Event.isTurn : Event → Bool
  | .duty _ .compromise => true
  | _ => false

/-! ## Histories -/

section Times

variable {log : List Occurrence} {n : Nat}

theorem length_timesOf (log : List Occurrence) (event : Event) :
    (timesOf log event).length = log.countP (·.event = event) := by
  rw [timesOf, List.length_map, List.countP_eq_length_filter]

/-- Every event is of one kind, and those of the agents are of one agent. -/
theorem length_eq_sum (h : ∀ o ∈ log, ∀ i, o.event.index? = some i → i < n) :
    log.length = ∑ i ∈ Finset.range n, (timesOf log (.start i)).length +
      ∑ i ∈ Finset.range n, (timesOf log (.duty i .broadcast)).length +
      ∑ i ∈ Finset.range n, (timesOf log (.duty i .compute)).length +
      (timesOf log .sample).length + log.countP (·.event.isTurn) +
      log.countP (·.event.isArrival) := by
  simp only [length_timesOf]
  induction log with
  | nil => simp
  | cons o rest ih =>
    have ih := ih fun o' ho' => h o' (List.mem_cons_of_mem _ ho')
    have hindex := h o List.mem_cons_self
    obtain ⟨time, event, role, succeeded⟩ := o
    simp only [List.length_cons, List.countP_cons, Finset.sum_add_distrib, ih]
    cases event with
    | start i =>
      have hi := hindex i rfl
      simp [hi, Event.isTurn, Event.isArrival]
      omega
    | duty i duty =>
      have hi := hindex i rfl
      cases duty <;> simp [hi, Event.isTurn, Event.isArrival] <;> omega
    | arrival d => simp [Event.isTurn, Event.isArrival]; omega
    | sample => simp [Event.isTurn, Event.isArrival]; omega

end Times

namespace Simulation

open Run

variable {first sim sim₁ sim' : Simulation} {log : List Occurrence} {e : Entry Event}
  {q : EventQueue Event} {r : Except Failure Bool} {event : Event}

/-- How many compromises have taken place. -/
def firedCount (sim : Simulation) : Nat := (sim.ledger.map Ledger.firedCount).getD 0

/-- An agent has sent `n` datagrams to each of the others. -/
structure Sends (n : Nat) (a : Agent) : Prop where
  each : ∀ b ∈ a.audience, a.sent.get b = n
  total : a.sent.total = a.audience.length * n

/-- The counters of a run agree with its history. -/
structure Counted (log : List Occurrence) (sim : Simulation) : Prop where
  within : ∀ o ∈ log, ∀ i, o.event.index? = some i → i < sim.crafts.length
  dispatched : sim.world.queue.dispatched = log.length
  arrivals : sim.stats.delivered + sim.stats.unreachable = log.countP (·.event.isArrival)
  fired : sim.firedCount = log.countP (·.event.isTurn)
  sent : ∀ (i : Nat) (c : Craft), sim.crafts[i]? = some c →
    Sends (timesOf log (.duty i .broadcast)).length c.agent

/-! ## Effects -/

/-- A compromise that takes place is counted in the ledger. -/
theorem Effect.firedCount (h : sim.Effect event sim₁) :
    sim₁.firedCount = sim.firedCount + if event.isTurn then 1 else 0 := by
  cases h with
  | turns _ _ _ _ planned fires =>
    rw [Simulation.firedCount, Simulation.firedCount, planned]
    exact Ledger.firedCount_fire fires
  | _ => rfl

/-- Only a broadcast changes what an agent has sent. -/
theorem Effect.sends (h : sim.Effect event sim₁) :
    ∀ (i : Nat) (c' : Craft), sim₁.crafts[i]? = some c' → ∃ c, sim.crafts[i]? = some c ∧
      c'.agent.audience = c.agent.audience ∧
      (event ≠ .duty i .broadcast ∧ c'.agent.sent = c.agent.sent ∨ event = .duty i .broadcast ∧
        c.agent.sent.incrementAll c.agent.audience = .ok c'.agent.sent) := by
  cases h with
  | starts craft =>
    exact forall_played ⟨_, craft, rfl, .inl ⟨nofun, rfl⟩⟩ fun i c _ hc =>
      ⟨c, hc, rfl, .inl ⟨nofun, rfl⟩⟩
  | @broadcasts j c sent next craft running counts =>
    refine forall_played ⟨_, craft, rfl, .inr ⟨rfl, counts⟩⟩ fun i c hi hc =>
      ⟨c, hc, rfl, .inl ⟨fun h => hi ?_, rfl⟩⟩
    cases h
    rfl
  | computes craft =>
    exact forall_played ⟨_, craft, rfl, .inl ⟨nofun, rfl⟩⟩ fun i c _ hc =>
      ⟨c, hc, rfl, .inl ⟨nofun, rfl⟩⟩
  | turns craft =>
    exact forall_played ⟨_, craft, rfl, .inl ⟨nofun, rfl⟩⟩ fun i c _ hc =>
      ⟨c, hc, rfl, .inl ⟨nofun, rfl⟩⟩
  | hears craft =>
    exact forall_played ⟨_, craft, rfl, .inl ⟨nofun, rfl⟩⟩ fun i c _ hc =>
      ⟨c, hc, rfl, .inl ⟨nofun, rfl⟩⟩
  | misses => exact fun i c hc => ⟨c, hc, rfl, .inl ⟨nofun, rfl⟩⟩
  | samples =>
    intro i c' hc'
    obtain ⟨c, hc, rfl⟩ := Option.map_eq_some_iff.1 (List.getElem?_map.symm.trans hc')
    exact ⟨c, hc, rfl, .inl ⟨nofun, rfl⟩⟩

/-- One datagram more goes to each of the others. -/
theorem Sends.succ {n : Nat} {a a' : Agent} (h : Sends n a) (hnodup : a.audience.Nodup)
    (hsame : a'.audience = a.audience) (hsent : a.sent.incrementAll a.audience = .ok a'.sent) :
    Sends (n + 1) a' := by
  refine ⟨fun b hb => ?_, ?_⟩
  · rw [hsame] at hb
    rw [Tally.get_incrementAll hsent, h.each b hb, List.count_eq_one_of_mem hnodup hb]
  · rw [Tally.total_incrementAll hsent, h.total, hsame, Nat.mul_succ]

/-! ## Steps -/

theorem Counted.move (h : Counted log sim) (hu : sim.Underway) (hm : sim.Moves e r sim') :
    Counted (log ++ [sim.occurrence e r]) sim' := by
  obtain ⟨q, -, takes⟩ := hm.popped
  have hlength : sim'.crafts.length = sim.crafts.length := length_eq_of_roster hm.roster_eq
  have hwithin : ∀ o ∈ log ++ [sim.occurrence e r], ∀ i, o.event.index? = some i →
      i < sim'.crafts.length := by
    rw [hlength]
    intro o ho i hi
    rcases List.mem_append.1 ho with ho | ho
    · exact h.within o ho i hi
    · rw [List.mem_singleton.1 ho] at hi
      exact hu.within e takes.mem i hi
  have hcount : ∀ p : Event → Bool, (log ++ [sim.occurrence e r]).countP (fun o => p o.event) =
      log.countP (fun o => p o.event) + if p e.event then 1 else 0 := fun p => by
    rw [List.countP_append, List.countP_singleton]
    rfl
  have hdispatched : sim.world.queue.dispatched + 1 = (log ++ [sim.occurrence e r]).length := by
    rw [h.dispatched, List.length_append, List.length_singleton]
  cases hm with
  | @refused q i c _ takes _ event =>
    refine ⟨hwithin, takes.dispatched.trans hdispatched, ?_, ?_, fun j c hc => ?_⟩
    · rw [hcount, event]
      exact h.arrivals
    · rw [hcount, event]
      exact h.fired
    · rw [timesOf_concat_of_ne (o := sim.occurrence e _) (by
        rw [show (sim.occurrence e _).event = _ from event]
        exact nofun)]
      exact h.sent j c hc
  | @went q sim₁ _ takes _ effect =>
    obtain ⟨_, hleads⟩ := effect.leads
    refine ⟨hwithin, ?_, ?_, ?_, fun i c' hc' => ?_⟩
    · have hsame : sim₁.flushed.world.queue.dispatched = q.dispatched := by
        refine (EventQueue.dispatched_scheduleAll _ _).trans ?_
        rw [hleads.queue, EventQueue.dispatched_scheduleAll]
        rfl
      rw [hsame, takes.dispatched, hdispatched]
    · obtain ⟨posted, reached, missed, htallies, hone⟩ := effect.tallies
      have hreached : sim₁.flushed.stats.delivered = sim.stats.delivered + reached :=
        congrArg Stats.delivered htallies.stats
      have hmissed : sim₁.flushed.stats.unreachable = sim.stats.unreachable + missed :=
        congrArg Stats.unreachable htallies.stats
      rw [hcount, ← h.arrivals, ← hone]
      omega
    · rw [hcount, ← h.fired]
      exact effect.firedCount
    · obtain ⟨c, hc, hsame, ⟨hne, hsent⟩ | ⟨heq, hsent⟩⟩ := effect.sends i c' hc'
      · rw [timesOf_concat_of_ne (o := sim.occurrence e _) hne]
        have hbefore := h.sent i c hc
        exact ⟨fun b hb => by rw [hsent, hbefore.each b (hsame ▸ hb)],
          by rw [hsent, hbefore.total, hsame]⟩
      · rw [timesOf_concat_self (o := sim.occurrence e _) heq, List.length_append]
        exact (h.sent i c hc).succ (hu.fleet.nodup_audience hc) hsame hsent

theorem Counted.close (h : Counted log sim) (hc : sim.Closes sim') : Counted log sim' := by
  have hlength : sim'.crafts.length = sim.crafts.length := length_eq_of_roster hc.roster_eq
  have hdispatched := hc.drained.dispatched.trans h.dispatched
  have hcrafts := hc.crafts
  obtain ⟨_, _, _, _, hsim'⟩ := hc.resembles
  refine ⟨fun o ho i hi => hlength ▸ h.within o ho i hi, hdispatched, ?_, ?_, fun i c' hc' => ?_⟩
  · rw [hsim']
    exact h.arrivals
  · rw [hsim']
    exact h.fired
  · rw [hcrafts, List.getElem?_map] at hc'
    obtain ⟨c, hc, rfl⟩ := Option.map_eq_some_iff.1 hc'
    obtain ⟨_, _, heq⟩ := c.agent.retired_eq
    rw [Craft.retired, heq]
    exact ⟨(h.sent i c hc).each, (h.sent i c hc).total⟩

theorem Counted.refuse (h : Counted log sim) (a : Address) : Counted log (sim.refuse a) := by
  obtain ⟨_, heq⟩ := sim.refuse_eq a
  rw [heq]
  exact ⟨h.within, h.dispatched, h.arrivals, h.fired, h.sent⟩

theorem Built.counted {s : Settings} (h : first.Built s) : Counted [] first := by
  obtain ⟨shared, -, hcrafts⟩ := h.crafts
  obtain ⟨_, -, hqueue⟩ := h.queue
  have hstats : first.stats = {} := congrArg Network.stats h.network
  refine ⟨nofun, ?_, ?_, ?_, fun i c hc => ?_⟩
  · rw [hqueue, EventQueue.dispatched_scheduleAll]
    rfl
  · rw [hstats]
    rfl
  · unfold Simulation.firedCount
    cases hledger : first.ledger with
    | none => rfl
    | some l =>
      obtain ⟨_, due, _, -, -, rfl⟩ := h.ledger l hledger
      have hnone : (Ledger.empty due).Forall fun c => c.fired = none :=
        fun e he => absurd he List.not_mem_nil
      exact Ledger.firedCount_eq_zero (Ledger.forall_planFrom hnone fun _ _ => rfl).1
  · obtain ⟨_, _, rfl⟩ := hcrafts i c hc
    exact ⟨fun _ _ => rfl, (Nat.mul_zero _).symm⟩

/-- The counters of a run agree with its history in every state. -/
theorem Reaches.counted (h : first.Reaches log sim) (hu : first.Underway)
    (hfirst : Counted [] first) : Counted log sim := by
  have hall := h.induction_to_end (P := Counted) (Q := Counted) hu hfirst
    (fun _ _ a _ hp => hp.refuse a) (fun _ _ _ _ _ hu hm _ hp => hp.move hu hm)
    (fun _ _ _ _ hc hp => hp.close hc) fun _ _ a _ hq => hq.refuse a
  exact hall.elim And.right And.right

/-! ## A whole run -/

/-- A run that is over and in which no address of an agent was refused has kept its timetable. Every
agent has broadcast and taken its steps at the ticks of its intervals from its start on, just
those before the stop time, and has sent one datagram to each of the others for every broadcast;
the positions were sampled at the ticks of their period; and every event that was dispatched was
a start, a broadcast, a step, a sample, a compromise or the arrival of a datagram. -/
theorem keeps_timetable {s : Settings} {positions : List Vec3} {telemetry : Telemetry}
    {j j' : Journal} (hbuilt : withPositions s positions telemetry j = .ok first j')
    (hrun : first.Reaches log sim) (hf : sim.finished = true) (hallowed : sim.Allows) :
    ∃ t : Timetable, t.Fits s ∧
      (∀ (i : Nat) (c : Craft), sim.crafts[i]? = some c →
        Periodic (t.startOf i).nanos t.agents.packetInterval.nanos t.stop.nanos
          (timesOf log (.duty i .broadcast)) ∧
        Periodic (t.startOf i).nanos t.agents.calculateInterval.nanos t.stop.nanos
          (timesOf log (.duty i .compute)) ∧
        (∀ (k : Nat) (c' : Craft), sim.crafts[k]? = some c' → k ≠ i →
          c.agent.sent.get c'.agent.id = (timesOf log (.duty i .broadcast)).length) ∧
        c.agent.sent.total =
          (sim.crafts.length - 1) * (timesOf log (.duty i .broadcast)).length) ∧
      Periodic 0 t.period.nanos t.stop.nanos (timesOf log .sample) ∧
      sim.summary.dispatched =
        ((Finset.range sim.crafts.length).filter fun i => t.startOf i < t.stop).card +
        ∑ i ∈ Finset.range sim.crafts.length, (timesOf log (.duty i .broadcast)).length +
        ∑ i ∈ Finset.range sim.crafts.length, (timesOf log (.duty i .compute)).length +
        (timesOf log .sample).length + sim.firedCount +
        (sim.summary.stats.delivered + sim.summary.stats.unreachable) := by
  have hb := built_of_withPositions hbuilt
  have hu := hb.underway
  obtain ⟨t, hfits, hfirst⟩ := hb.onSchedule
  have hkept := hrun.kept hu hfirst hf hallowed
  have hcounted := hrun.counted hu hb.counted
  obtain ⟨_, htravels, -⟩ := hrun.exists_travels
  have hfleet := htravels.fleet hu
  refine ⟨t, hfits, fun i c hc => ?_, hkept.sample, ?_⟩
  · have hi := (List.getElem?_eq_some_iff.1 hc).1
    have hsent := hcounted.sent i c hc
    refine ⟨hkept.duties i hi .broadcast nofun, hkept.duties i hi .compute nofun,
      fun k c' hc' hne => hsent.each _ ((hfleet.mem_audience hc).2 ⟨Fleet.mem_ids hc', ?_⟩), ?_⟩
    · exact fun heq => hne (hfleet.index_inj hc' hc heq)
    · rw [hsent.total, hfleet.length_audience hc]
  · have hstarts : ∑ i ∈ Finset.range sim.crafts.length, (timesOf log (.start i)).length =
        ((Finset.range sim.crafts.length).filter fun i => t.startOf i < t.stop).card := by
      rw [Finset.card_filter]
      exact Finset.sum_congr rfl fun i hi => hkept.starts i (Finset.mem_range.1 hi)
    show sim.world.queue.dispatched = _
    rw [hcounted.dispatched, length_eq_sum hcounted.within, hstarts, ← hcounted.fired,
      ← hcounted.arrivals]
    rfl

theorem keeps_timetable_pair : ∃ first j' log last,
    withPositions .pair [⟨0.0, 0.0, 0.0⟩, ⟨1.0, 0.0, 0.0⟩] (.recorder {})
      (Journal.ofThreshold none) = .ok first j' ∧ first.Reaches log last ∧
      last.finished = true ∧ last.Allows ∧ ∃ t : Timetable, t.Fits .pair ∧
        Periodic 0 t.period.nanos t.stop.nanos (timesOf log .sample) := by
  obtain ⟨first, j', moves, last, hbuilt, hrun, hfinished, hrefused, -⟩ := exists_pair_run
  have hallowed : last.Allows := fun a _ => by
    rw [hrefused]
    rfl
  obtain ⟨t, hfits, -, hsample, -⟩ :=
    keeps_timetable hbuilt hrun.reaches hfinished hallowed
  exact ⟨first, j', _, last, hbuilt, hrun.reaches, hfinished, hallowed, t, hfits, hsample⟩

end Simulation

end SwarmFlight
