import Mathlib.Algebra.Order.BigOperators.Group.List
import SwarmFlight.Proofs.Run.History

/-!
# Every run ends

Almost every event schedules others, so it is not the number of pending events that goes
down. Each pending event has a `weight` instead : what it and everything that comes of it
can still cost before the stop time. A tick weighs as much as there are nanoseconds left, a
broadcast that much for each datagram it may send as well, and a start as much as the duties
it schedules. The weight of all that is pending and of all that is in the network goes down
with every event, whether it succeeds or fails (`measure_lt`), so that at some call nothing
is left and the run is over (`exists_last_call`).
-/

namespace SwarmFlight

namespace Simulation

/-- What an event due at `due` can still cost, if a broadcast sends at most `m` datagrams. -/
def weight (m stop : Nat) (due : Nat) : Event → Nat
  | .start _ => (1 + (stop - due)) * (m + 1) + (1 + (stop - due)) + 2
  | .duty _ .broadcast => (1 + (stop - due)) * (m + 1)
  | .duty _ .compute => 1 + (stop - due)
  | .duty _ .compromise => 1
  | .arrival _ => 1
  | .sample => 1 + (stop - due)

/-- What some events can still cost. -/
def cost (m stop : Nat) (events : List (Instant × Event)) : Nat :=
  (events.map fun x => weight m stop x.1.nanos x.2).sum

/-- What everything that is pending or in the network can still cost. -/
def measure (m : Nat) (sim : Simulation) : Nat :=
  cost m sim.stopTime.nanos (sim.world.queue.live.map fun e => (e.due, e.event)) +
    sim.world.network.outbox.size

/-- Every period is positive and fits between the stop time and the end of the clock, and no
broadcast sends more than `m` datagrams. -/
structure Paced (m : Nat) (sim : Simulation) : Prop where
  room : sim.HasRoom sim.stopTime
  duties : ∀ c ∈ sim.crafts, c.agent.settings.packetInterval ≠ .zero ∧
    c.agent.settings.calculateInterval ≠ .zero ∧ c.agent.settings.peerCount ≤ m
  sample : sim.samplePeriod ≠ .zero

variable {sim sim' : Simulation} {m : Nat}

/-! ## Costs -/

theorem weight_anti {stop d d' : Nat} (h : d ≤ d') (event : Event) :
    weight m stop d' event ≤ weight m stop d event := by
  have hle : 1 + (stop - d') ≤ 1 + (stop - d) := by omega
  have hmul := Nat.mul_le_mul_right (m + 1) hle
  unfold weight
  split <;> omega

theorem cost_append (stop : Nat) (l l' : List (Instant × Event)) :
    cost m stop (l ++ l') = cost m stop l + cost m stop l' := by
  rw [cost, List.map_append, List.sum_append]
  rfl

theorem cost_sublist {stop : Nat} {l l' : List (Instant × Event)} (h : l.Sublist l') :
    cost m stop l ≤ cost m stop l' :=
  (h.map _).sum_le_sum fun _ _ => Nat.zero_le _

theorem cost_arrivals (stop : Nat) (t : Instant) (ds : List Datagram) :
    cost m stop (ds.map fun d => (t, .arrival d)) = ds.length := by
  induction ds with
  | nil => rfl
  | cons d rest ih =>
    rw [List.map_cons, ← List.singleton_append, cost_append, ih, List.length_cons, Nat.add_comm]
    rfl

/-- New entries cost at most what their events do. -/
theorem cost_newEntries (stop : Nat) (q : EventQueue Event) (events : List (Instant × Event)) :
    cost m stop ((q.newEntries events).map fun e => (e.due, e.event)) ≤ cost m stop events := by
  rw [EventQueue.newEntries_map, cost, List.map_map]
  refine List.sum_le_sum fun x _ => weight_anti ?_ x.2
  rw [Duration.nanos_max]
  exact Nat.le_max_left _ _

theorem cost_cons (stop : Nat) (x : Instant × Event) (l : List (Instant × Event)) :
    cost m stop (x :: l) = weight m stop x.1.nanos x.2 + cost m stop l := List.sum_cons

theorem cost_nil (stop : Nat) : cost m stop [] = 0 := rfl

/-- A tick that is due later by a positive period has less left to cost. -/
theorem later_left_lt {stop now : Instant} {d : Duration} (hd : d ≠ .zero) (hnow : now < stop)
    (hroom : stop.nanos + d.nanos < durationLimit) :
    1 + (stop.nanos - (now.later d).nanos) ≤ stop.nanos - now.nanos := by
  have hlt : now.nanos < stop.nanos := hnow
  have hpos : 0 < d.nanos := Nat.pos_of_ne_zero fun h => hd (Duration.ext h)
  rw [Duration.nanos_later (by omega)]
  omega

theorem cost_firstDuties (stop index : Nat) (a : Agent) (now : Instant) :
    cost m stop ((Act.firstDuties a now).map fun x => (x.1, .duty index x.2)) ≤
      weight m stop now.nanos (.duty index .broadcast) +
        weight m stop now.nanos (.duty index .compute) + 1 := by
  rw [Act.firstDuties, List.map_append, cost_append]
  refine Nat.add_le_add (Nat.le_refl _) ?_
  cases a.settings.compromiseAt with
  | none => exact Nat.zero_le _
  | some due =>
    cases a.role.isLeader with
    | true => exact Nat.zero_le _
    | false => exact Nat.le_refl _

/-- What comes of an event costs less than the event itself. -/
theorem cost_successors (hp : sim.Paced m) (hnow : sim.world.clock < sim.stopTime)
    (event : Event) : cost m sim.stopTime.nanos (sim.successors event) + sim.reach event <
      weight m sim.stopTime.nanos sim.world.clock.nanos event := by
  cases event with
  | start index =>
    cases hc : sim.crafts[index]? with
    | none =>
      simp only [successors, hc, cost_nil, Simulation.reach, weight]
      omega
    | some c =>
      have hfirst := cost_firstDuties (m := m) sim.stopTime.nanos index c.agent sim.world.clock
      simp only [successors, hc, Simulation.reach]
      simp only [weight] at hfirst ⊢
      omega
  | duty index duty =>
    cases hc : sim.crafts[index]? with
    | none =>
      have hpos : 0 < (1 + (sim.stopTime.nanos - sim.world.clock.nanos)) * (m + 1) :=
        Nat.mul_pos (by omega) (Nat.succ_pos m)
      cases duty with
      | broadcast => simpa only [successors, hc, cost_nil, Simulation.reach, weight] using hpos
      | compute =>
        simp only [successors, hc, cost_nil, Simulation.reach, weight]
        omega
      | compromise =>
        simp only [successors, hc, cost_nil, Simulation.reach, weight]
        exact Nat.one_pos
    | some c =>
      obtain ⟨hpacket, hcalculate, hpeers⟩ := hp.duties c (List.mem_of_getElem? hc)
      have hroom := hp.room.duties c (List.mem_of_getElem? hc)
      cases duty with
      | compromise =>
        simp only [successors, hc, cost_nil, Simulation.reach, Act.reach, weight]
        exact Nat.one_pos
      | broadcast =>
        have hleft := later_left_lt hpacket hnow (hroom .broadcast)
        have hmul := Nat.mul_le_mul_right (m + 1) hleft
        simp only [successors, hc, Simulation.reach, cost_cons, cost_nil, weight, Act.interval,
          Act.reach]
        rw [Nat.add_mul 1 (sim.stopTime.nanos - sim.world.clock.nanos)]
        omega
      | compute =>
        have hleft := later_left_lt hcalculate hnow (hroom .compute)
        simp only [successors, hc, Simulation.reach, cost_cons, cost_nil, weight, Act.interval,
          Act.reach]
        omega
  | arrival d => exact Nat.one_pos
  | sample =>
    have := later_left_lt hp.sample hnow hp.room.sample
    simp only [successors, Simulation.reach, cost_cons, cost_nil, weight]
    omega

/-! ## The measure -/

theorem cost_perm {stop : Nat} {l l' : List (Entry Event)} (h : l.Perm l') :
    cost m stop (l.map fun e => (e.due, e.event)) =
      cost m stop (l'.map fun e => (e.due, e.event)) :=
  ((h.map _).map _).sum_eq

theorem Paced.withQueue (hp : sim.Paced m) (q : EventQueue Event) : (sim.withQueue q).Paced m :=
  ⟨⟨hp.room.duties, hp.room.sample, hp.room.latency⟩, hp.duties, hp.sample⟩

/-- An event that was dispatched leaves less to be done, even if it failed. -/
theorem measure_lt {r : Except Failure Bool} {e : Entry Event} (hs : sim.Sound)
    (hp : sim.Paced m) (h : sim.Steps r (some e) sim') : measure m sim' < measure m sim := by
  obtain ⟨q, ht, hearly, events, arrivals, hwithin, hleads, houtbox⟩ := h.leads
  obtain ⟨hlive', hlive⟩ := live_of_takes ht hleads
  have hstop : sim'.stopTime = sim.stopTime := hleads.stopTime
  have hnow : (sim.withQueue q).world.clock < (sim.withQueue q).stopTime := by
    show q.clock < sim.stopTime
    rw [ht.clock]
    exact EventQueue.lt_of_not_stopsBy hs.stop hearly
  have hdue : (sim.withQueue q).world.clock.nanos = e.due.nanos := congrArg _ ht.clock
  have hcost := cost_successors (hp.withQueue q) hnow e.event
  rw [hdue] at hcost
  have hnew := cost_newEntries (m := m) sim.stopTime.nanos q (events ++ arrivals.map fun d =>
    (q.clock.later sim.world.network.link.latency, .arrival d))
  rw [cost_append, cost_arrivals] at hnew
  have hevents := @cost_sublist m sim.stopTime.nanos _ _ hwithin
  have hstopq : (sim.withQueue q).stopTime = sim.stopTime := rfl
  rw [hstopq] at hcost
  rw [measure, measure, hstop, cost_perm hlive', cost_perm hlive, List.map_append, cost_append,
    List.map_cons, cost_cons]
  dsimp only
  omega

/-- What happens leaves the settings of the agents alone. -/
theorem Happens.settings {event : Event} {r : Except Failure Unit} (h : sim.Happens event r sim') :
    ∀ c' ∈ sim'.crafts, ∃ c ∈ sim.crafts, c'.agent.settings = c.agent.settings := by
  have hset : ∀ {index : Nat} {c c' : Craft}, sim.crafts[index]? = some c →
      sim'.crafts = sim.crafts.set index c' → c'.agent.part.settings = c.agent.settings →
      ∀ d' ∈ sim'.crafts, ∃ d ∈ sim.crafts, d'.agent.settings = d.agent.settings := by
    intro index c c' hc hcrafts hsame d' hd'
    rw [hcrafts] at hd'
    rcases List.mem_or_eq_of_mem_set hd' with hd' | rfl
    · exact ⟨d', hd', rfl⟩
    · exact ⟨c, List.mem_of_getElem? hc, hsame⟩
  cases h with
  | kept _ _ crafts =>
    intro c' hc'
    obtain ⟨c, hc, hk⟩ := exists_keeps_of_mem crafts hc'
    exact ⟨c, hc, congrArg Part.settings hk.part⟩
  | started craft _ _ crafts part => exact hset craft crafts (by rw [part]; rfl)
  | turned craft _ _ crafts part => exact hset craft crafts (by rw [part]; rfl)

/-- A run that goes on keeps its pace. -/
theorem Paced.of_leads {events : List (Instant × Event)} {sent : Nat} (hp : sim.Paced m)
    (hl : sim.Leads events sent sim')
    (hs : ∀ c' ∈ sim'.crafts, ∃ c ∈ sim.crafts, c'.agent.settings = c.agent.settings) :
    sim'.Paced m := by
  refine ⟨⟨fun c' hc' duty => ?_, ?_, ?_⟩, fun c' hc' => ?_, ?_⟩
  · obtain ⟨c, hc, hsame⟩ := hs c' hc'
    rw [hsame, hl.stopTime]
    exact hp.room.duties c hc duty
  · rw [hl.stopTime, hl.samplePeriod]
    exact hp.room.sample
  · rw [hl.stopTime, hl.link]
    exact hp.room.latency
  · obtain ⟨c, hc, hsame⟩ := hs c' hc'
    rw [hsame]
    exact hp.duties c hc
  · rw [hl.samplePeriod]
    exact hp.sample

theorem Steps.paced {r : Except Failure Bool} {e : Entry Event} (h : sim.Steps r (some e) sim')
    (hp : sim.Paced m) : sim'.Paced m := by
  obtain ⟨q, -, -, events, arrivals, -, hleads, -⟩ := h.leads
  obtain ⟨q₁, _, sim₁, -, -, -, -, happens, -, carries⟩ := h.dispatched
  refine (hp.withQueue q).of_leads hleads ?_
  rw [carries.crafts]
  exact happens.settings

/-! ## The last call -/

theorem Paced.withRefused (hp : sim.Paced m) (refused : Registry Unit) :
    (sim.withRefused refused).Paced m :=
  ⟨⟨hp.room.duties, hp.room.sample, hp.room.latency⟩, hp.duties, hp.sample⟩

/-- A run keeps its pace until it is over. -/
theorem Reaches.paced {first : Simulation} {log : List Occurrence} (h : first.Reaches log sim)
    (hs : first.Sound) (hp : first.Paced m) (hf : sim.finished = false) : sim.Paced m := by
  refine @Reaches.induction first sim log (fun _ sim => sim.finished = false → sim.Paced m) h hs
    (fun _ => hp) (fun _ _ refused hp hf => (hp hf).withRefused refused)
    (fun _ _ _ r e _ hsteps hp hf => ?_) hf
  cases e with
  | some e =>
    obtain ⟨_, _, _, unfinished, -⟩ := hsteps.dispatched
    exact hsteps.paced (hp unfinished)
  | none =>
    cases hsteps with
    | still => exact hp hf
    | ended _ _ _ _ ends => exact absurd ends.finished (by rw [hf]; exact nofun)

/-- From any state of a run on, some call finds nothing left to do, and every call until then
returns. -/
theorem exists_last_call {refused : Nat → List Address} (n : Nat)
    (hs : (before refused sim n).Sound) (hp : (before refused sim n).Paced m)
    (hf : (before refused sim n).finished = false) :
    ∃ k last, n ≤ k ∧ (before refused sim k).Sound ∧ (before refused sim k).finished = false ∧
      (before refused sim k).stopTime = (before refused sim n).stopTime ∧
      call refused sim k = .ok false last ∧ (before refused sim k).Steps (.ok false) none last ∧
      ∀ j, n ≤ j → j < k → ∃ r sim', call refused sim j = returned r sim' ∧ r ≠ .ok false := by
  induction hw : measure m (before refused sim n) using Nat.strong_induction_on generalizing n with
  | _ w ih =>
    obtain ⟨r, sim', e, hstep, hsteps⟩ := hs.step hp.room
    cases e with
    | none =>
      have hr : r = .ok false := by cases hsteps <;> rfl
      subst hr
      exact ⟨n, sim', Nat.le_refl n, hs, hf, rfl, hstep, hsteps,
        fun j hj hjn => absurd hj (Nat.not_le.2 hjn)⟩
    | some e =>
      obtain ⟨-, hf', hstop, -⟩ := hsteps.goes hs
      have hr := hsteps.ne_ok_false
      obtain ⟨rf, hrf⟩ := sim'.refuseAll_eq (refused (n + 1))
      have hnext : before refused sim (n + 1) = sim'.withRefused rf := by
        rw [before, hstep, leftBy_returned, hrf]
      have hlt : measure m (before refused sim (n + 1)) < w := by
        rw [hnext, ← hw]
        show measure m sim' < _
        exact measure_lt hs hp hsteps
      obtain ⟨k, last, hk, hsound, hunfinished, hsame, hcall, hlast, hbefore⟩ :=
        ih _ hlt (n + 1) (hnext ▸ (hsteps.sound hs).withRefused rf)
          (hnext ▸ (hsteps.paced hp).withRefused rf) (by rw [hnext]; exact hf') rfl
      have hstop' : (before refused sim (n + 1)).stopTime = (before refused sim n).stopTime := by
        rw [hnext]
        exact hstop
      refine ⟨k, last, Nat.le_of_succ_le hk, hsound, hunfinished, hsame.trans hstop', hcall, hlast,
        fun j hj hjk => ?_⟩
      rcases Nat.eq_or_lt_of_le hj with rfl | hj
      · exact ⟨r, sim', hstep, hr⟩
      · exact hbefore j hj hjk

/-- Runnable settings make a run that keeps its pace. -/
theorem Built.paced {s : Settings} (h : sim.Built s) (hr : s.Runnable) : ∃ m, sim.Paced m := by
  obtain ⟨stop, start, period, due, link, agents, hstop, -, hperiod, -, hlink, hagents, hpacket,
    hcalculate, hsample, hroom⟩ := hr
  obtain ⟨shared, hshared, hcrafts⟩ := h.crafts
  cases hstop.symm.trans h.stopTime
  cases hperiod.symm.trans h.samplePeriod
  cases hagents.symm.trans hshared
  have hlink := Except.ok.inj (hlink.symm.trans h.link)
  simp only [List.forall_mem_cons, Duration.isSome_add?_iff, hlink] at hroom
  obtain ⟨rpacket, rcalculate, rsample, rlatency, -⟩ := hroom
  have hsettings : ∀ c ∈ sim.crafts, ∃ due, c.agent.settings =
      { agents with compromiseAt := due } := by
    intro c hc
    obtain ⟨index, hindex⟩ := List.getElem?_of_mem hc
    obtain ⟨id, position, rfl⟩ := hcrafts index c hindex
    exact ⟨_, rfl⟩
  refine ⟨agents.peerCount, ⟨fun c hc duty => ?_, rsample, rlatency⟩, fun c hc => ?_, hsample⟩
  · obtain ⟨due, hsame⟩ := hsettings c hc
    rw [hsame]
    cases duty with
    | broadcast => exact rpacket
    | compute => exact rcalculate
    | compromise => exact sim.stopTime.inRange
  · obtain ⟨due, hsame⟩ := hsettings c hc
    rw [hsame]
    exact ⟨hpacket, hcalculate, Nat.le_refl _⟩

/-- A run that is over has nothing left. -/
theorem Steps.clean {last : Simulation} (h : sim.Steps (.ok false) none last) (hs : sim.Sound)
    (hf : sim.finished = false) : (∀ c ∈ last.crafts, c.agent.stage ≠ .running) ∧
      (∀ a, last.world.network.isBound a = false) ∧ last.world.queue.size = 0 ∧
      last.finished = true ∧ last.now = sim.stopTime := by
  have hsound := h.sound hs
  cases h with
  | still finished => rw [hf] at finished; cases finished
  | @ended q _ _ _ drained _ ends =>
    have hended : ∀ p ∈ last.parts, p.stage ≠ .running := by
      rw [ends.parts]
      intro p hp
      obtain ⟨p, -, rfl⟩ := List.mem_map.1 hp
      unfold Part.ended
      split
      · exact nofun
      · assumption
    have hstages : ∀ c ∈ last.crafts, c.agent.stage ≠ .running := fun c hc =>
      hended _ (List.mem_map_of_mem hc)
    have hdrained : sim.world.queue.Drained last.world.queue := ends.drained _ drained
    refine ⟨hstages, fun a => ?_, ?_, ends.finished, ?_⟩
    · refine Bool.eq_false_iff.2 fun ha => ?_
      obtain ⟨p, hp, hrun, -⟩ := hsound.owned a ha
      exact hended p hp hrun
    · rw [hdrained.wellFormed.size_eq, hdrained.live, List.length_nil]
    · rw [now, if_pos ends.finished, ends.stopTime]
      rfl

/-- However a run of runnable settings is continued, after finitely many calls it is over. -/
theorem Reaches.ends {first : Simulation} {s : Settings} {log : List Occurrence}
    (h : first.Reaches log sim)
    (hb : first.Built s) (hr : s.Runnable) (refused : Nat → List Address) :
    ∃ n log', first.Reaches (log ++ log') (before refused sim n) ∧
      (before refused sim n).finished = true := by
  obtain ⟨rf, hrf⟩ := sim.refuseAll_eq (refused 0)
  have hbefore : before refused sim 0 = sim.withRefused rf := hrf
  by_cases hf : sim.finished = true
  · obtain ⟨log', hlog'⟩ := @Reaches.calls _ _ _ h refused 0 (by rintro _ ⟨⟩)
    exact ⟨0, log', hlog', by rw [hbefore]; exact hf⟩
  · have hf : sim.finished = false := Bool.eq_false_iff.2 hf
    obtain ⟨m, hp⟩ := hb.paced hr
    obtain ⟨k, last, -, hs, hunfinished, -, hcall, hlast, hreturned⟩ := exists_last_call 0
      (hbefore ▸ (h.sound hb.sound).withRefused rf)
      (hbefore ▸ (h.paced hb.sound hp hf).withRefused rf)
      (by rw [hbefore]; exact hf)
    have hall : ∀ j < k + 1, ∃ r sim', call refused sim j = returned r sim' := by
      intro j hj
      rcases Nat.lt_succ_iff_lt_or_eq.1 hj with hj | rfl
      · obtain ⟨r, sim', hj', -⟩ := hreturned j (Nat.zero_le j) hj
        exact ⟨r, sim', hj'⟩
      · exact ⟨.ok false, last, hcall⟩
    obtain ⟨log', hlog'⟩ := h.calls refused hall
    refine ⟨k + 1, log', hlog', ?_⟩
    obtain ⟨rf, hrf⟩ := last.refuseAll_eq (refused (k + 1))
    have hnext : before refused sim (k + 1) = last.withRefused rf := by
      rw [before, show Run.step _ = .ok false last from hcall]
      exact hrf
    rw [hnext]
    exact (hlast.clean hs hunfinished).2.2.2.1

/-- Whatever addresses are refused, and whatever fails on the way : after finitely many calls a run
of runnable settings is over, with no agent running, no address bound and nothing pending, and then
nothing moves any more. -/
theorem run_ends {s : Settings} {positions : List Vec3} {telemetry : Telemetry}
    {j j' : Journal} {sim : Simulation}
    (hbuilt : withPositions s positions telemetry j = .ok sim j') (hr : s.Runnable)
    (refused : Nat → List Address) : ∃ n last, call refused sim n = .ok false last ∧
      (∀ k < n, ∃ r sim', call refused sim k = returned r sim' ∧ r ≠ .ok false) ∧
      (∀ c ∈ last.crafts, c.agent.stage ≠ .running) ∧
      (∀ a, last.world.network.isBound a = false) ∧
      last.world.queue.size = 0 ∧ s.stopTime = .ok last.now ∧
      ∀ as, Run.step (last.refuseAll as) = .ok false (last.refuseAll as) := by
  have hb := built_of_withPositions hbuilt
  obtain ⟨m, hp⟩ := hb.paced hr
  obtain ⟨rf, hrf⟩ := sim.refuseAll_eq (refused 0)
  have hbefore : before refused sim 0 = sim.withRefused rf := hrf
  obtain ⟨n, last, -, hs, hf, hstop, hcall, hlast, hreturned⟩ := exists_last_call 0
    (hbefore ▸ hb.sound.withRefused rf) (hbefore ▸ hp.withRefused rf)
    (by rw [hbefore]; exact hb.finished)
  obtain ⟨hstopped, hunbound, hempty, hfinished, hnow⟩ := hlast.clean hs hf
  refine ⟨n, last, hcall, fun k hk => hreturned k (Nat.zero_le k) hk, hstopped, hunbound, hempty,
    ?_, fun as => ?_⟩
  · rw [hnow, hstop, hbefore]
    exact hb.stopTime
  · obtain ⟨rf, hrf⟩ := last.refuseAll_eq as
    rw [hrf]
    exact step_of_finished hfinished

theorem run_ends_pair : ∃ first j', withPositions .pair [⟨0.0, 0.0, 0.0⟩, ⟨1.0, 0.0, 0.0⟩]
    (.recorder {}) (Journal.ofThreshold none) = .ok first j' ∧ Settings.pair.Runnable ∧
      ∃ n last, call (fun _ => []) first n = .ok false last ∧ last.world.queue.size = 0 := by
  obtain ⟨first, j', -, hbuilt, -⟩ := exists_pair
  obtain ⟨n, last, hcall, -, -, -, hempty, -⟩ :=
    run_ends hbuilt Settings.pair_runnable fun _ => []
  exact ⟨first, j', hbuilt, Settings.pair_runnable, n, last, hcall, hempty⟩

end Simulation

end SwarmFlight
