import SwarmFlight.Proofs.Run.Step

/-!
# What holds between the steps of a run

A run is `Sound` if its queue is well formed, agents that have not started have nothing
scheduled and addresses are bound by running agents only. Every step keeps that
(`Steps.sound`). `Steps.leads` puts an event and the flush after it together : the entry that
is dispatched, the events that are scheduled and the datagrams that are on their way.
-/

namespace SwarmFlight

namespace Simulation

/-- What holds between any two steps. -/
structure Sound (sim : Simulation) : Prop where
  queue : sim.world.queue.WellFormed
  ranked : ∀ e ∈ sim.world.queue.live, e.rank = Ranked.rank e.event
  stop : sim.world.queue.stopTime = some sim.stopTime
  dormant : sim.Dormant
  owned : sim.Owned

variable {sim sim' : Simulation} {r : Except Failure Bool} {e : Entry Event}

/-! ## Parts -/

theorem map_part_of_keeps {crafts crafts' : List Craft}
    (h : List.Forall₂ Craft.Keeps crafts crafts') :
    crafts'.map (·.agent.part) = crafts.map (·.agent.part) := by
  induction h with
  | nil => rfl
  | cons hk _ ih => rw [List.map_cons, List.map_cons, hk.part, ih]

theorem exists_keeps_of_mem {crafts crafts' : List Craft}
    (h : List.Forall₂ Craft.Keeps crafts crafts') {c' : Craft} (hc' : c' ∈ crafts') :
    ∃ c ∈ crafts, c.Keeps c' := by
  induction h with
  | nil => exact absurd hc' List.not_mem_nil
  | @cons c d _ _ hk _ ih =>
    rcases List.mem_cons.1 hc' with rfl | hc'
    · exact ⟨c, List.mem_cons_self, hk⟩
    · obtain ⟨c, hc, hk⟩ := ih hc'
      exact ⟨c, List.mem_cons_of_mem _ hc, hk⟩

theorem parts_of_set {index : Nat} {c : Craft} (h : sim'.crafts = sim.crafts.set index c) :
    sim'.parts = sim.parts.set index c.agent.part := by
  rw [parts, h, List.map_set, parts]

theorem Happens.dormant {event : Event} {r : Except Failure Unit} (h : sim.Happens event r sim')
    (hd : sim.Dormant) : sim'.Dormant := by
  have hset : ∀ {index : Nat} {c' : Craft}, sim'.crafts = sim.crafts.set index c' →
      c'.agent.part.stage = .running → sim'.Dormant := by
    intro index c' hcrafts hrun c hc
    rw [hcrafts] at hc
    rcases List.mem_or_eq_of_mem_set hc with hc | rfl
    · exact hd c hc
    · exact fun h => nomatch hrun.symm.trans h
  cases h with
  | kept _ _ crafts =>
    intro c' hc' hstage
    obtain ⟨c, hc, hk⟩ := exists_keeps_of_mem crafts hc'
    have hsame : c.agent.stage = .uninitialized := (congrArg Part.stage hk.part).symm.trans hstage
    rw [hk.idle (by rw [hsame]; exact nofun)]
    exact hd c hc hsame
  | started _ _ _ crafts part => exact hset crafts (by rw [part])
  | turned _ running _ crafts part => exact hset crafts (by rw [part]; exact running)

/-- A part that runs is still there when another one is replaced, or when its place is taken by one
that runs at the same address. -/
theorem running_set {parts : List Part} {index : Nat} {p₁ p : Part} (hp : p ∈ parts)
    (hrun : p.stage = .running)
    (hsame : parts[index]? = some p → p₁.stage = .running ∧ p₁.id = p.id) :
    ∃ p' ∈ parts.set index p₁, p'.stage = .running ∧ p'.id = p.id := by
  obtain ⟨j, hj⟩ := List.getElem?_of_mem hp
  by_cases hji : index = j
  · subst hji
    obtain ⟨hlt, -⟩ := List.getElem?_eq_some_iff.1 hj
    exact ⟨p₁, List.mem_set hlt p₁, hsame hj⟩
  · refine ⟨p, List.mem_of_getElem? (i := j) ?_, hrun, rfl⟩
    rw [List.getElem?_set_ne hji, hj]

theorem Happens.owned {event : Event} {r : Except Failure Unit} (h : sim.Happens event r sim')
    (ho : sim.Owned) : sim'.Owned := by
  intro a ha
  cases h with
  | kept _ _ crafts bound =>
    rw [parts, map_part_of_keeps crafts]
    rw [Network.isBound, bound] at ha
    exact ho a ha
  | @started index c _ _ craft fresh _ crafts part bind =>
    obtain ⟨-, -, -, bound⟩ := Network.bind_ok bind
    have hpart : sim.parts[index]? = some c.agent.part := by
      rw [Run.getElem?_parts, craft]
      rfl
    rw [parts_of_set crafts, part]
    rcases (bound a).1 ha with rfl | ha
    · obtain ⟨hlt, -⟩ := List.getElem?_eq_some_iff.1 hpart
      exact ⟨_, List.mem_set hlt _, rfl, rfl⟩
    · obtain ⟨p, hp, hrun, rfl⟩ := ho a ha
      refine running_set hp hrun fun hsame => ?_
      cases hpart.symm.trans hsame
      cases fresh.symm.trans hrun
  | @turned index c _ _ _ craft running _ crafts part bound =>
    rw [Network.isBound, bound] at ha
    obtain ⟨p, hp, hrun, rfl⟩ := ho a ha
    rw [parts_of_set crafts, part]
    refine running_set hp hrun fun hsame => ?_
    rw [Run.getElem?_parts, craft] at hsame
    cases hsame
    exact ⟨running, rfl⟩

/-! ## Steps -/

/-- What was in the network is on its way, was lost or is still there. -/
structure Carries (sim sim' : Simulation) : Prop where
  leads : ∃ arrivals : List Datagram, arrivals.length + sim'.world.network.outbox.size ≤
    sim.world.network.outbox.size ∧ sim.Leads (arrivals.map fun d =>
      (sim.world.clock.later sim.world.network.link.latency, .arrival d)) 0 sim'
  crafts : sim'.crafts = sim.crafts
  bound : sim'.world.network.bound = sim.world.network.bound

theorem Carries.refl (sim : Simulation) : sim.Carries sim :=
  ⟨⟨[], (Nat.zero_add _).le, .refl sim 0⟩, rfl, rfl⟩

theorem Flushes.carries (h : sim.Flushes sim') : sim.Carries sim' := by
  obtain ⟨arrivals, hlength, hleads⟩ := h.leads
  refine ⟨⟨arrivals, ?_, hleads⟩, h.crafts, h.bound⟩
  rw [h.outbox]
  exact hlength

/-- A step that dispatches an entry takes it from the queue and lets its event happen. -/
theorem Steps.dispatched (h : sim.Steps r (some e) sim') : ∃ q r₁ sim₁, sim.finished = false ∧
    sim.world.queue.pop = (some e, q) ∧ sim.world.queue.Takes e q ∧
    sim.world.queue.stopsBy e.due = false ∧ (sim.withQueue q).Happens e.event r₁ sim₁ ∧
    r = r₁.map (fun _ => true) ∧ sim₁.Carries sim' := by
  cases h with
  | failed unfinished popped takes early happens =>
    exact ⟨_, _, _, unfinished, popped, takes, early, happens, rfl, .refl _⟩
  | went unfinished popped takes early happens flushes =>
    exact ⟨_, _, _, unfinished, popped, takes, early, happens, rfl, flushes.carries⟩

/-- A start whose address is refused changes nothing. -/
theorem Steps.start_refused {index : Nat} {c : Craft} (h : sim.Steps r (some e) sim')
    (he : e.event = .start index) (hc : sim.crafts[index]? = some c)
    (hr : sim.world.network.refused.contains c.agent.id) :
    ∃ q, sim.world.queue.Takes e q ∧ sim' = sim.withQueue q := by
  cases h with
  | @failed e q _ _ _ _ takes _ happens =>
    rw [he] at happens
    cases happens with
    | kept _ _ _ _ start => exact ⟨q, takes, (start index rfl).1⟩
  | went _ _ takes _ happens =>
    rw [he] at happens
    cases happens with
    | kept _ _ _ _ start =>
      obtain ⟨-, f, hf, -⟩ := start index rfl
      cases hf
    | started craft _ _ _ _ bind =>
      cases hc.symm.trans craft
      rw [Network.bind, if_pos (by exact hr)] at bind
      cases bind

/-- A start whose address can be bound succeeds. -/
theorem Steps.start_succeeds {index : Nat} {c : Craft} {n : Network}
    (h : sim.Steps r (some e) sim') (he : e.event = .start index)
    (hc : sim.crafts[index]? = some c) (fresh : c.agent.stage = .uninitialized)
    (hbind : sim.world.network.bind c.agent.id = .ok n) : r = .ok true := by
  obtain ⟨q, r₁, sim₁, -, -, -, -, happens, rfl, -⟩ := h.dispatched
  rw [he] at happens
  cases happens with
  | kept _ _ _ _ start =>
    obtain ⟨-, f, -, hfails⟩ := start index rfl
    cases hbind.symm.trans (hfails c hc fresh)
  | started => rfl

/-- An agent whose start has succeeded runs. -/
theorem Steps.start_runs {index : Nat} (h : sim.Steps (.ok true) (some e) sim')
    (he : e.event = .start index) :
    ∃ c, sim'.crafts[index]? = some c ∧ c.agent.stage = .running := by
  obtain ⟨q, r₁, sim₁, -, -, -, -, happens, hr, carries⟩ := h.dispatched
  rw [he] at happens
  rw [carries.crafts]
  cases happens with
  | kept _ _ _ _ start =>
    obtain ⟨-, f, rfl, -⟩ := start index rfl
    cases hr
  | @started _ _ c' _ craft _ _ crafts part =>
    refine ⟨c', ?_, congrArg Part.stage part⟩
    rw [crafts, List.getElem?_set_self (List.getElem?_eq_some_iff.1 craft).1]

/-- A step that dispatches an entry schedules some of its successors and some arrivals. Every
datagram that is on its way was in the network before or was sent now. -/
theorem Steps.leads (h : sim.Steps r (some e) sim') : ∃ q, sim.world.queue.Takes e q ∧
    sim.world.queue.stopsBy e.due = false ∧ ∃ (events : List (Instant × Event))
      (arrivals : List Datagram), events.Sublist ((sim.withQueue q).successors e.event) ∧
      (sim.withQueue q).Leads (events ++ arrivals.map fun d =>
        (q.clock.later sim.world.network.link.latency, .arrival d))
        ((sim.withQueue q).reach e.event) sim' ∧
      arrivals.length + sim'.world.network.outbox.size ≤
        sim.world.network.outbox.size + (sim.withQueue q).reach e.event := by
  obtain ⟨q, r₁, sim₁, -, -, takes, early, happens, -, carries⟩ := h.dispatched
  obtain ⟨events, hwithin, hleads⟩ := happens.leads
  obtain ⟨arrivals, hlength, hcarry⟩ := carries.leads
  have hclock : sim₁.world.clock = q.clock := hleads.clock
  have hlink : sim₁.world.network.link = sim.world.network.link := hleads.link
  rw [hclock, hlink] at hcarry
  exact ⟨q, takes, early, events, arrivals, hwithin, hleads.trans hcarry,
    hlength.trans hleads.outbox⟩

/-- A step that dispatches an entry moves the clock to it, and the run is not over. -/
theorem Steps.goes (h : sim.Steps r (some e) sim') (hs : sim.Sound) :
    sim.finished = false ∧ sim'.finished = false ∧ sim'.stopTime = sim.stopTime ∧
      sim'.world.clock = e.due ∧ sim.world.clock ≤ e.due ∧ e.due < sim.stopTime := by
  obtain ⟨q, takes, early, events, arrivals, -, hleads, -⟩ := h.leads
  obtain ⟨-, _, _, unfinished, -⟩ := h.dispatched
  refine ⟨unfinished, hleads.finished.trans unfinished, hleads.stopTime,
    hleads.clock.trans takes.clock, ?_, EventQueue.lt_of_not_stopsBy hs.stop early⟩
  exact hs.queue.ahead e (EventQueue.mem_live.1 takes.mem).1

theorem Steps.ne_ok_false (h : sim.Steps r (some e) sim') : r ≠ .ok false := by
  cases h with
  | failed => exact nofun
  | went => exact nofun

theorem Carries.dormant (h : sim.Carries sim') (hd : sim.Dormant) : sim'.Dormant := by
  rw [Dormant, h.crafts]
  exact hd

theorem Carries.owned (h : sim.Carries sim') (ho : sim.Owned) : sim'.Owned := by
  intro a ha
  rw [Network.isBound, h.bound] at ha
  rw [parts, h.crafts]
  exact ho a ha

/-- The entries of a queue after one was taken and some events were scheduled. -/
theorem live_of_takes {q : EventQueue Event} {events : List (Instant × Event)} {sent : Nat}
    (ht : sim.world.queue.Takes e q) (hl : (sim.withQueue q).Leads events sent sim') :
    sim'.world.queue.live.Perm (q.newEntries events ++ q.live) ∧
      sim.world.queue.live.Perm (e :: q.live) := by
  refine ⟨?_, ht.live⟩
  rw [hl.queue]
  exact ht.wellFormed.live_scheduleAll

/-- Every step keeps a run sound. -/
theorem Steps.sound {e : Option (Entry Event)} (h : sim.Steps r e sim') (hs : sim.Sound) :
    sim'.Sound := by
  cases e with
  | none =>
    cases h with
    | still => exact hs
    | @ended q _ _ _ drained _ ends =>
      have hd := ends.drained _
        (show sim.world.queue.Drained (sim.withQueue q).world.queue from drained)
      refine ⟨hd.wellFormed, fun x hx => ?_, ?_, ends.dormant hs.dormant, ends.owned hs.owned⟩
      · rw [hd.live] at hx
        exact absurd hx List.not_mem_nil
      · rw [hd.stopTime, hs.stop, ends.stopTime]
        rfl
  | some e =>
    obtain ⟨q, ht, -, events, arrivals, -, hl, -⟩ := h.leads
    obtain ⟨q₁, _, sim₁, -, -, -, -, happens, -, carries⟩ := h.dispatched
    refine ⟨?_, fun x hx => ?_, ?_, ?_, ?_⟩
    · rw [hl.queue]
      exact ht.wellFormed.scheduleAll
    · obtain ⟨hlive', hlive⟩ := live_of_takes ht hl
      rcases List.mem_append.1 (hlive'.mem_iff.1 hx) with hx | hx
      · exact EventQueue.rank_of_mem_newEntries hx
      · exact hs.ranked x (hlive.mem_iff.2 (List.mem_cons_of_mem _ hx))
    · rw [hl.queue, EventQueue.stopTime_scheduleAll, hl.stopTime]
      exact ht.stopTime.trans hs.stop
    · exact carries.dormant (happens.dormant (show (sim.withQueue q₁).Dormant from hs.dormant))
    · exact carries.owned (happens.owned (show (sim.withQueue q₁).Owned from hs.owned))

end Simulation

end SwarmFlight
