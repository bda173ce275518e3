import SwarmFlight.Proofs.Run.Traffic

/-!
# Links

Between any two agents there is a link : of the states that one of them broadcasts, the other
accepts some, in the same order, each once and each just one latency after it was sent
(`accepts_in_order`). So the table of the other holds the latest of those that have come
through.

`Linked` is the invariant behind it. The states that have come through and those under way
are, one after the other, a part of those that were sent, and those under way have their
datagrams in the queue in the same order. Every step keeps that (`Linked.move`) : a broadcast
adds a state at the end of those under way, unless its datagram is lost, and an arrival takes
the first of them.
-/

namespace SwarmFlight

/-- A state that was made known, and when. -/
structure Report where
  time : Instant
  beacon : Beacon

/-- What a datagram that arrives makes known. -/
def Occurrence.report? (o : Occurrence) : Option Report :=
  match o.event with
  | .arrival d =>
    match Beacon.decode d.payload with
    | .ok beacon => some ⟨o.time, beacon⟩
    | .error _ => none
  | _ => none

namespace Move

/-- The states that the agent of an index broadcasts in a step : its position on its track and its
role, at the time of the broadcast. -/
def sends (m : Move) (i : Nat) : List Report :=
  match m.before.crafts[i]? with
  | some c => (m.occurrences.filter fun o => o.event = .duty i .broadcast ∧ o.succeeded).map
      fun o => ⟨o.time, ⟨c.track.positionAt o.time, c.agent.role⟩⟩
  | none => []

/-- The states that the agent of an index accepts from an address in a step. -/
def accepts (m : Move) (k : Nat) (a : Address) : List Report :=
  if m.before.receivedFrom k a < m.after.receivedFrom k a then
    m.occurrences.filterMap Occurrence.report?
  else []

end Move

/-- A state that was sent is known one latency later. -/
def Report.Delayed (latency : Duration) (sent known : Report) : Prop :=
  known.time.nanos = sent.time.nanos + latency.nanos ∧ known.beacon = sent.beacon

/-- A state that was sent is on its way. -/
def Report.Flies (latency : Duration) (sent : Report) (e : Entry Event) : Prop :=
  e.due.nanos = sent.time.nanos + latency.nanos ∧
    ∃ d, e.event = .arrival d ∧ d.payload = sent.beacon.encode

namespace Simulation

open Run

variable {first sim sim₁ sim' : Simulation} {moves : List Move}
  {e : Entry Event} {q : EventQueue Event} {r : Except Failure Bool} {i k : Nat}
  {a b : Address} {c : Craft}

/-! ## What a step sends and accepts -/

theorem Moves.sends_eq (h : sim.Moves e r sim') (hf : sim.finished = false)
    (hevent : e.event = .duty i .broadcast) (hc : sim.crafts[i]? = some c) :
    (Move.mk sim r sim').sends i = [⟨e.due, c.agent.beacon c.track e.due⟩] := by
  have hr : r.toBool = true := by
    cases h with
    | refused _ _ _ hstart => exact nomatch hevent.symm.trans hstart
    | went => rfl
  simp [Move.sends, Move.occurrences, hc, h.occurrences hf, occurrence, hevent, hr, Agent.beacon]

theorem Moves.sends_of_ne (h : sim.Moves e r sim') (hf : sim.finished = false)
    (hne : e.event ≠ .duty i .broadcast) : (Move.mk sim r sim').sends i = [] := by
  unfold Move.sends
  cases sim.crafts[i]? with
  | none => rfl
  | some c => simp [Move.occurrences, h.occurrences hf, occurrence, hne]

theorem accepts_of_eq (h : sim'.receivedFrom k a = sim.receivedFrom k a) :
    (Move.mk sim r sim').accepts k a = [] := if_neg (by rw [h]; exact Nat.lt_irrefl _)

theorem Moves.accepts_eq (h : sim.Moves e r sim') (hf : sim.finished = false)
    (hmore : sim.receivedFrom k a < sim'.receivedFrom k a) {d : Datagram} {beacon : Beacon}
    (hevent : e.event = .arrival d) (hbeacon : Beacon.decode d.payload = .ok beacon) :
    (Move.mk sim r sim').accepts k a = [⟨e.due, beacon⟩] := by
  rw [Move.accepts, if_pos (by exact hmore), Move.occurrences, h.occurrences hf]
  simp [occurrence, Occurrence.report?, hevent, hbeacon]

/-! ## A link -/

/-- The ends of a link : the agents by index and by address. -/
structure Route where
  sender : Nat
  source : Address
  receiver : Nat
  target : Address
  latency : Duration

/-- The states that the sender of a link has broadcast. -/
def Route.sent (l : Route) (moves : List Move) : List Report := moves.flatMap (·.sends l.sender)

/-- The states that the receiver of a link has accepted. -/
def Route.accepted (l : Route) (moves : List Move) : List Report :=
  moves.flatMap (·.accepts l.receiver l.source)

theorem Route.sent_concat (l : Route) (moves : List Move) (m : Move) :
    l.sent (moves ++ [m]) = l.sent moves ++ m.sends l.sender := by
  rw [Route.sent, List.flatMap_append, List.flatMap_singleton]
  rfl

theorem Route.accepted_concat (l : Route) (moves : List Move) (m : Move) :
    l.accepted (moves ++ [m]) = l.accepted moves ++ m.accepts l.receiver l.source := by
  rw [Route.accepted, List.flatMap_append, List.flatMap_singleton]
  rfl

/-- A link of a run. -/
structure Route.Joins (l : Route) (sim : Simulation) : Prop where
  source : sim.ids[l.sender]? = some l.source
  target : sim.ids[l.receiver]? = some l.target
  ne : l.sender ≠ l.receiver
  latency : sim.world.network.link.latency = l.latency

/-- What a link has come to. Of the states that were sent those that were kept were accepted, and
the last of them is known. -/
structure Relays (l : Route) (sent accepted kept : List Report) (sim : Simulation) : Prop where
  delayed : List.Forall₂ (Report.Delayed l.latency) kept accepted
  sentCount : sim.sentTo l.sender l.target = sent.length
  keptCount : sim.receivedFrom l.receiver l.source = kept.length
  heard : sim.heardFrom l.receiver l.source = kept.getLast?.map Report.beacon

/-- What holds of a link while the run goes on : the states that are `under` way come after those
that were kept, and their datagrams are pending in the same order. -/
structure Linked (l : Route) (sent accepted kept under : List Report)
    (flight : List (Entry Event)) (sim : Simulation) : Prop where
  joins : l.Joins sim
  relays : Relays l sent accepted kept sim
  order : (kept ++ under).Sublist sent
  flying : List.Forall₂ (Report.Flies l.latency) under flight
  live : flight.Perm (sim.world.queue.awaited (Event.links l.source l.target))
  sorted : flight.Pairwise fun x y => x.before y
  soon : ∀ x ∈ flight, x.due.nanos ≤ sim.world.clock.nanos + l.latency.nanos

variable {l : Route} {sent accepted kept under : List Report} {flight : List (Entry Event)}

theorem Route.Joins.frame (h : l.Joins sim) (hr : sim'.roster = sim.roster)
    (hlink : sim'.world.network.link = sim.world.network.link) : l.Joins sim' :=
  have hids := ids_eq_of_roster hr
  ⟨hids ▸ h.source, hids ▸ h.target, h.ne, hlink ▸ h.latency⟩

theorem Route.Joins.flushed (h : l.Joins sim)
    (effect : (sim.withQueue q).Effect e.event sim₁) : l.Joins sim₁.flushed := by
  obtain ⟨_, hleads⟩ := effect.leads
  exact h.frame effect.roster_eq hleads.link

theorem exists_craft_of_ids (h : sim.ids[i]? = some a) :
    ∃ c, sim.crafts[i]? = some c ∧ c.agent.id = a := by
  rw [ids, List.getElem?_map] at h
  exact Option.map_eq_some_iff.1 h

theorem Route.Joins.sender_id (h : l.Joins sim) (hc : sim.crafts[l.sender]? = some c) :
    c.agent.id = l.source := by
  obtain ⟨c', hc', hid⟩ := exists_craft_of_ids h.source
  cases hc.symm.trans hc'
  exact hid

theorem Route.Joins.target_ne (h : l.Joins sim) (hu : sim.Underway)
    (hc : sim.crafts[l.sender]? = some c) : l.target ≠ c.agent.id := by
  obtain ⟨c', hc', hid⟩ := exists_craft_of_ids h.target
  rw [← hid]
  exact fun heq => h.ne (hu.fleet.index_inj hc hc' heq.symm)

theorem exists_of_links {event : Event} (h : event.links a b) : ∃ d, event = .arrival d := by
  obtain ⟨d, hd, -⟩ := Event.exists_of_links h
  exact ⟨d, hd⟩

/-- The clock goes on to the event. -/
theorem Effect.clock_eq (effect : (sim.withQueue q).Effect e.event sim₁)
    (takes : sim.world.queue.Takes e q) : sim₁.world.clock = e.due := by
  obtain ⟨_, hleads⟩ := effect.leads
  exact hleads.clock.trans takes.clock

theorem Effect.clock_le (effect : (sim.withQueue q).Effect e.event sim₁) (hu : sim.Underway)
    (takes : sim.world.queue.Takes e q) : sim.world.clock ≤ sim₁.world.clock := by
  rw [effect.clock_eq takes]
  exact hu.sound.queue.ahead e (EventQueue.mem_live.1 takes.mem).1

/-- Only an arrival on the link changes what the receiver knows. -/
theorem Relays.of_effect (h : Relays l sent accepted kept sim) (hu : sim.Underway)
    (hj : l.Joins sim) (effect : (sim.withQueue q).Effect e.event sim₁)
    (hnot : e.event.links l.source l.target = false) {sent' : List Report}
    (hsent : sim₁.sentTo l.sender l.target = sent'.length) :
    Relays l sent' accepted kept sim₁.flushed := by
  obtain ⟨c, hc, hid⟩ := exists_craft_of_ids hj.target
  rcases effect.reception (hu.fleet.of_roster rfl rfl) hc (hu.knows _ c hc).owner l.source with
    ⟨-, hcount, hheard⟩ | ⟨d, _, hevent, hsource, htarget, -⟩
  · exact ⟨h.delayed, hsent, hcount.trans h.keptCount, hheard.trans h.heard⟩
  · rw [hevent, Bool.eq_false_iff] at hnot
    exact absurd (Event.links_arrival.2 ⟨hsource, htarget.trans hid⟩) hnot

theorem Linked.soon_of_effect (h : Linked l sent accepted kept under flight sim)
    (hu : sim.Underway) (takes : sim.world.queue.Takes e q)
    (effect : (sim.withQueue q).Effect e.event sim₁) :
    ∀ x ∈ flight, x.due.nanos ≤ sim₁.flushed.world.clock.nanos + l.latency.nanos := by
  intro x hx
  rw [clock_flushed]
  exact (h.soon x hx).trans (Nat.add_le_add_right (effect.clock_le hu takes) _)

/-- The next event of a link is the first of those that are under way. -/
theorem Linked.takes_first (h : Linked l sent accepted kept under flight sim) (hu : sim.Underway)
    (takes : sim.world.queue.Takes e q) (hlinks : e.event.links l.source l.target) :
    ∃ rest, flight = e :: rest ∧ rest.Perm (q.awaited (Event.links l.source l.target)) := by
  have htakes := h.live.trans (takes.awaited_of_pos hlinks)
  obtain ⟨x, rest, rfl⟩ : ∃ x rest, flight = x :: rest := by
    cases flight with
    | nil => exact absurd htakes.length_eq nofun
    | cons x rest => exact ⟨x, rest, rfl⟩
  have hx : x ∈ sim.world.queue.live :=
    (EventQueue.mem_awaited.1 (h.live.mem_iff.1 List.mem_cons_self)).1
  have hbefore : x.before e := by
    rcases List.mem_cons.1 (htakes.mem_iff.2 List.mem_cons_self) with rfl | he
    · exact Entry.before_refl e
    · exact (List.pairwise_cons.1 h.sorted).1 e he
  cases hu.sound.queue.eq_of_id_eq hx takes.mem
    (Entry.id_eq_of_before hbefore (takes.first x hx))
  exact ⟨rest, rfl, htakes.cons_inv⟩

/-- The datagram that comes first is dropped, or the state that it carries is accepted. -/
theorem Linked.arrives (h : Linked l sent accepted kept under flight sim) (hu : sim.Underway)
    (takes : sim.world.queue.Takes e q) (effect : (sim.withQueue q).Effect e.event sim₁)
    (hlinks : e.event.links l.source l.target) : ∃ s under' flight',
      Linked l sent accepted kept under' flight' sim₁.flushed ∨
      (∃ d, e.event = .arrival d ∧ Beacon.decode d.payload = .ok s.beacon) ∧
        Linked l sent (accepted ++ [⟨e.due, s.beacon⟩]) (kept ++ [s]) under' flight'
          sim₁.flushed := by
  obtain ⟨rest, rfl, hrest⟩ := h.takes_first hu takes hlinks
  obtain ⟨s, under, hflies, hflying, rfl⟩ := List.forall₂_cons_right_iff.1 h.flying
  obtain ⟨hdue, d, hd, hpayload⟩ := hflies
  have hdecode : Beacon.decode d.payload = .ok s.beacon := hpayload ▸ s.beacon.decode_encode
  have hne : ∀ i, e.event ≠ .duty i .broadcast := fun i hi => by
    rw [hi] at hlinks
    cases hlinks
  have hjoins := h.joins.flushed effect
  have hsoon := h.soon_of_effect hu takes effect
  rw [flushed_of_empty (hu.outbox_eq effect hne)] at hjoins hsoon ⊢
  have hsent := (effect.sentTo_of_ne (hne l.sender) l.target).trans h.relays.sentCount
  have hlive := hrest.trans (effect.awaited takes.wellFormed fun _ => exists_of_links).symm
  have hsorted := (List.pairwise_cons.1 h.sorted).2
  have hsoon := fun x hx => hsoon x (List.mem_cons_of_mem _ hx)
  obtain ⟨c, hc, hid⟩ := exists_craft_of_ids h.joins.target
  refine ⟨s, under, rest, ?_⟩
  rcases effect.reception (hu.fleet.of_roster rfl rfl) hc (hu.knows _ c hc).owner l.source with
    ⟨-, hcount, hheard⟩ | ⟨d', beacon, hevent, -, -, -, hbeacon, hcount, hheard⟩
  · refine .inl ⟨hjoins, ⟨h.relays.delayed, hsent, hcount.trans h.relays.keptCount,
      hheard.trans h.relays.heard⟩, ?_, hflying, hlive, hsorted, hsoon⟩
    exact ((List.sublist_cons_self s under).append_left kept).trans h.order
  · cases hd.symm.trans hevent
    cases hdecode.symm.trans hbeacon
    refine .inr ⟨⟨d, hd, hdecode⟩, hjoins, ⟨?_, hsent, ?_, ?_⟩, ?_, hflying, hlive, hsorted, hsoon⟩
    · exact List.rel_append h.relays.delayed (.cons ⟨hdue, rfl⟩ .nil)
    · rw [hcount, List.length_append]
      exact congrArg (· + 1) h.relays.keptCount
    · rw [hheard, List.getLast?_concat]
      rfl
    · rw [List.append_assoc]
      exact h.order

/-- The one datagram of a broadcast that goes to an address. -/
theorem Fleet.filter_mail (h : sim.Fleet) (hc : sim.crafts[i]? = some c) (hb : b ∈ sim.ids)
    (hne : b ≠ c.agent.id) (now : Instant) :
    ((c.agent.mail c.track now).filter fun d => (Event.arrival d).links c.agent.id b) =
      [⟨c.agent.id, b, (c.agent.beacon c.track now).encode⟩] := by
  have hone := List.count_eq_one_of_mem (h.nodup_audience hc) ((h.mem_audience hc).2 ⟨hb, hne⟩)
  have hfilter : (c.agent.audience.filter fun peer => peer = b) = [b] := by
    rw [List.filter_eq, hone, List.replicate_one]
  simp only [Agent.mail, List.filter_map, Function.comp_def, Event.links, decide_true,
    Bool.true_and, hfilter, List.map_cons, List.map_nil]

/-- An event that is no arrival on a link leaves what is under way there, and adds what departs. -/
theorem Effect.links_flushed (takes : sim.world.queue.Takes e q)
    (effect : (sim.withQueue q).Effect e.event sim₁) (hnot : e.event.links a b = false) :
    (sim₁.flushed.world.queue.awaited (Event.links a b)).Perm
      (sim₁.departures (Event.links a b) ++ sim.world.queue.awaited (Event.links a b)) := by
  have hq : (sim.withQueue q).world.queue.WellFormed := takes.wellFormed
  have hkept := (effect.awaited hq fun _ => exists_of_links).trans (takes.awaited_of_neg hnot).symm
  exact (awaited_flushed (effect.wellFormed hq) _).trans (hkept.append_left _)

theorem Linked.live_flushed (h : Linked l sent accepted kept under flight sim)
    (takes : sim.world.queue.Takes e q) (effect : (sim.withQueue q).Effect e.event sim₁)
    (hnot : e.event.links l.source l.target = false) :
    (sim₁.flushed.world.queue.awaited (Event.links l.source l.target)).Perm
      (sim₁.departures (Event.links l.source l.target) ++ flight) :=
  (effect.links_flushed takes hnot).trans (h.live.symm.append_left _)

/-- What departs comes after all that is under way. -/
theorem Linked.before_departs (h : Linked l sent accepted kept under flight sim)
    (hu : sim.Underway) (takes : sim.world.queue.Takes e q)
    (effect : (sim.withQueue q).Effect e.event sim₁) (inReach : sim₁.InReach)
    {x y : Entry Event} (hy : y ∈ flight)
    (hx : x ∈ sim₁.departures (Event.links l.source l.target)) : y.before x := by
  obtain ⟨hylive, hylinks⟩ := EventQueue.mem_awaited.1 (h.live.mem_iff.1 hy)
  obtain ⟨hxnew, hxlinks⟩ := List.mem_filter.1 hx
  obtain ⟨_, hleads⟩ := effect.leads
  have hrank : y.rank = x.rank := by
    obtain ⟨d, hd⟩ := exists_of_links hylinks
    obtain ⟨d', hd'⟩ := exists_of_links hxlinks
    rw [hu.sound.ranked y hylive, EventQueue.rank_of_mem_newEntries hxnew, hd, hd']
    rfl
  have hid : y.id ≤ x.id := by
    have hfresh := hu.sound.queue.fresh y (EventQueue.mem_live.1 hylive).1
    rw [← takes.nextId] at hfresh
    have hnext : q.nextId ≤ sim₁.world.queue.nextId := by
      rw [hleads.queue]
      exact EventQueue.nextId_le_scheduleAll
    exact Nat.le_of_lt
      (hfresh.trans_le (hnext.trans (EventQueue.le_id_of_mem_newEntries hxnew)))
  have hdue : y.due.nanos ≤ x.due.nanos := by
    rw [inReach.due_of_departs hx, hleads.link,
      show (sim.withQueue q).world.network.link.latency = _ from h.joins.latency]
    exact (h.soon y hy).trans (Nat.add_le_add_right (effect.clock_le hu takes) _)
  rw [Entry.before_iff, Entry.key_le_iff]
  rcases Nat.lt_or_eq_of_le hdue with hlt | heq
  · exact .inl hlt
  · exact .inr ⟨Duration.ext heq, .inr ⟨hrank, hid⟩⟩

/-- Of the mail of the sender just one datagram is for the receiver. -/
theorem Route.Joins.filter_outbox (h : l.Joins sim) (hu : sim.Underway)
    (takes : sim.world.queue.Takes e q) (effect : (sim.withQueue q).Effect e.event sim₁)
    (hevent : e.event = .duty l.sender .broadcast) (hc : sim.crafts[l.sender]? = some c) :
    (sim₁.world.network.outbox.toList.filter fun d =>
      (Event.arrival d).links l.source l.target) =
        [⟨l.source, l.target, (c.agent.beacon c.track e.due).encode⟩] := by
  rw [hu.outbox_broadcast takes effect hevent hc, ← h.sender_id hc]
  exact hu.fleet.filter_mail hc (List.mem_of_getElem? h.target) (h.target_ne hu hc) _

/-- It departs or is lost. -/
theorem Route.Joins.departures (h : l.Joins sim) (hu : sim.Underway)
    (takes : sim.world.queue.Takes e q) (effect : (sim.withQueue q).Effect e.event sim₁)
    (hevent : e.event = .duty l.sender .broadcast) (hc : sim.crafts[l.sender]? = some c) :
    sim₁.departures (Event.links l.source l.target) = [] ∨
      ∃ x, sim₁.departures (Event.links l.source l.target) = [x] ∧
        x.event = .arrival ⟨l.source, l.target, (c.agent.beacon c.track e.due).encode⟩ := by
  have hone : ((sim₁.world.collect.1).filter fun d =>
      (Event.arrival d).links l.source l.target).Sublist
        [⟨l.source, l.target, (c.agent.beacon c.track e.due).encode⟩] := by
    rw [← h.filter_outbox hu takes effect hevent hc]
    exact (Network.surviving_sublist _ _ _).filter _
  have hmap := sim₁.departures_map (Event.links l.source l.target)
  rcases List.sublist_singleton.1 hone with hlost | hthrough
  · rw [hlost, List.map_nil, List.map_eq_nil_iff] at hmap
    exact .inl hmap
  · rw [hthrough, List.map_singleton, List.map_eq_singleton_iff] at hmap
    exact .inr hmap

/-- Nothing departs on a link but the mail of its sender. -/
theorem Route.Joins.departures_eq_nil (h : l.Joins sim) (hu : sim.Underway)
    (takes : sim.world.queue.Takes e q) (effect : (sim.withQueue q).Effect e.event sim₁)
    (hne : e.event ≠ .duty l.sender .broadcast) :
    sim₁.departures (Event.links l.source l.target) = [] := by
  -- what was sent, if anything, is the mail of another agent
  have hsender : ∀ d ∈ sim₁.world.network.outbox.toList, d.sender ≠ l.source := by
    intro d hd
    by_cases hb : ∃ j, e.event = .duty j .broadcast
    · obtain ⟨j, hj⟩ := hb
      obtain ⟨c, hc⟩ := hu.exists_craft takes.mem (by rw [hj]; rfl)
      rw [hu.outbox_broadcast takes effect hj hc] at hd
      obtain ⟨peer, -, rfl⟩ := List.mem_map.1 hd
      obtain ⟨c', hc', hid⟩ := exists_craft_of_ids h.source
      rw [← hid]
      exact fun heq => hne (hu.fleet.index_inj hc hc' heq ▸ hj)
    · rw [hu.outbox_eq effect fun j hj => hb ⟨j, hj⟩] at hd
      exact absurd hd List.not_mem_nil
  have hmap := sim₁.departures_map (Event.links l.source l.target)
  rw [List.filter_eq_nil_iff.2, List.map_nil, List.map_eq_nil_iff] at hmap
  · exact hmap
  · exact fun d hd hlinks =>
      hsender d ((Network.surviving_sublist _ _ _).subset hd) (Event.links_arrival.1 hlinks).1

/-- A broadcast adds a state to those that are under way, unless the link loses its datagram. -/
theorem Linked.departs (h : Linked l sent accepted kept under flight sim) (hu : sim.Underway)
    (takes : sim.world.queue.Takes e q) (effect : (sim.withQueue q).Effect e.event sim₁)
    (inReach : sim₁.InReach) (hevent : e.event = .duty l.sender .broadcast)
    (hc : sim.crafts[l.sender]? = some c) : ∃ under' flight',
      Linked l (sent ++ [⟨e.due, c.agent.beacon c.track e.due⟩]) accepted kept under' flight'
        sim₁.flushed := by
  have hnot : e.event.links l.source l.target = false := by
    rw [hevent]
    rfl
  have hbroadcast : (sim.withQueue q).Effect (.duty l.sender .broadcast) sim₁ := hevent ▸ effect
  have hsent : sim₁.sentTo l.sender l.target =
      (sent ++ [(⟨e.due, c.agent.beacon c.track e.due⟩ : Report)]).length := by
    have hmember := (hu.fleet.mem_audience hc).2
      ⟨List.mem_of_getElem? h.joins.target, h.joins.target_ne hu hc⟩
    rw [hbroadcast.sentTo_broadcast hc,
      List.count_eq_one_of_mem (hu.fleet.nodup_audience hc) hmember, List.length_append]
    exact congrArg (· + 1) h.relays.sentCount
  have hrelays := h.relays.of_effect hu h.joins effect hnot hsent
  have hjoins := h.joins.flushed effect
  have hsoon := h.soon_of_effect hu takes effect
  have hlive := h.live_flushed takes effect hnot
  rcases h.joins.departures hu takes effect hevent hc with hlost | ⟨x, hx, hxevent⟩
  · rw [hlost, List.nil_append] at hlive
    exact ⟨under, flight, hjoins, hrelays, h.order.trans (List.sublist_append_left _ _), h.flying,
      hlive.symm, h.sorted, hsoon⟩
  · have hmem : x ∈ sim₁.departures (Event.links l.source l.target) := by
      rw [hx]
      exact List.mem_singleton_self x
    have hdue : x.due.nanos = sim₁.flushed.world.clock.nanos + l.latency.nanos := by
      rw [inReach.due_of_departs hmem, clock_flushed, ← hjoins.latency]
      rfl
    rw [hx] at hlive
    let last : Report := ⟨e.due, c.agent.beacon c.track e.due⟩
    refine ⟨under ++ [last], flight ++ [x], hjoins, hrelays, ?_, ?_,
      List.perm_append_comm.trans hlive.symm, ?_, ?_⟩
    · rw [← List.append_assoc]
      exact h.order.append_right _
    · refine List.rel_append h.flying (.cons ⟨?_, _, hxevent, rfl⟩ .nil)
      rw [hdue, clock_flushed, effect.clock_eq takes]
    · refine List.pairwise_append.2 ⟨h.sorted, List.pairwise_singleton _ _, fun y hy z hz => ?_⟩
      rw [List.mem_singleton.1 hz]
      exact h.before_departs hu takes effect inReach hy hmem
    · intro y hy
      rcases List.mem_append.1 hy with hy | hy
      · exact hsoon y hy
      · rw [List.mem_singleton.1 hy]
        exact hdue.le

/-- An event that is neither an arrival on a link nor a broadcast of its sender changes nothing. -/
theorem Linked.rests (h : Linked l sent accepted kept under flight sim) (hu : sim.Underway)
    (takes : sim.world.queue.Takes e q) (effect : (sim.withQueue q).Effect e.event sim₁)
    (hnot : e.event.links l.source l.target = false)
    (hne : e.event ≠ .duty l.sender .broadcast) :
    Linked l sent accepted kept under flight sim₁.flushed := by
  have hlive := h.live_flushed takes effect hnot
  have hsent := (effect.sentTo_of_ne hne l.target).trans h.relays.sentCount
  rw [h.joins.departures_eq_nil hu takes effect hne, List.nil_append] at hlive
  exact ⟨h.joins.flushed effect, h.relays.of_effect hu h.joins effect hnot hsent, h.order, h.flying,
    hlive.symm, h.sorted, h.soon_of_effect hu takes effect⟩

/-- A start that fails leaves a link as it is. -/
theorem Linked.withQueue (h : Linked l sent accepted kept under flight sim) (hu : sim.Underway)
    (takes : sim.world.queue.Takes e q) (hnot : e.event.links l.source l.target = false) :
    Linked l sent accepted kept under flight (sim.withQueue q) := by
  have hle : sim.world.clock ≤ q.clock := by
    rw [takes.clock]
    exact hu.sound.queue.ahead e (EventQueue.mem_live.1 takes.mem).1
  exact ⟨h.joins.frame rfl rfl, ⟨h.relays.delayed, h.relays.sentCount, h.relays.keptCount,
    h.relays.heard⟩, h.order, h.flying, h.live.trans (takes.awaited_of_neg hnot), h.sorted,
    fun x hx => (h.soon x hx).trans (Nat.add_le_add_right hle _)⟩

/-- Every step keeps a link. -/
theorem Linked.move (h : Linked l sent accepted kept under flight sim) (hu : sim.Underway)
    (hm : sim.Moves e r sim') : ∃ kept' under' flight',
      Linked l (sent ++ (Move.mk sim r sim').sends l.sender)
        (accepted ++ (Move.mk sim r sim').accepts l.receiver l.source) kept' under' flight'
        sim' := by
  have hstill : ∀ {sent' under' flight'}, Linked l sent' accepted kept under' flight' sim' →
      (Move.mk sim r sim').accepts l.receiver l.source = [] := fun h' =>
    accepts_of_eq (h'.relays.keptCount.trans h.relays.keptCount.symm)
  have hsends : e.event ≠ .duty l.sender .broadcast →
      (Move.mk sim r sim').sends l.sender = [] := hm.sends_of_ne hu.unfinished
  cases hm with
  | @refused q _ _ _ takes _ event =>
    have h' := h.withQueue hu takes (by rw [event]; rfl)
    rw [hstill h', hsends (by rw [event]; exact nofun), List.append_nil, List.append_nil]
    exact ⟨kept, under, flight, h'⟩
  | @went q sim₁ popped takes early effect inReach =>
    by_cases hlinks : e.event.links l.source l.target
    · have hno : e.event ≠ .duty l.sender .broadcast := fun hb => by
        rw [hb] at hlinks
        cases hlinks
      rw [hsends hno, List.append_nil]
      obtain ⟨s, under', flight', hdropped | ⟨⟨d, hd, hdecode⟩, hheard⟩⟩ :=
        h.arrives hu takes effect hlinks
      · rw [hstill hdropped, List.append_nil]
        exact ⟨kept, under', flight', hdropped⟩
      · have hmore : sim.receivedFrom l.receiver l.source <
            sim₁.flushed.receivedFrom l.receiver l.source := by
          rw [h.relays.keptCount, hheard.relays.keptCount, List.length_append]
          exact Nat.lt_succ_self _
        have haccepts := Moves.accepts_eq (.went popped takes early effect inReach) hu.unfinished
          hmore hd hdecode
        rw [haccepts]
        exact ⟨_, under', flight', hheard⟩
    · have hnot := Bool.eq_false_iff.2 hlinks
      by_cases hb : e.event = .duty l.sender .broadcast
      · obtain ⟨c, hc, -⟩ := exists_craft_of_ids h.joins.source
        obtain ⟨under', flight', h'⟩ := h.departs hu takes effect inReach hb hc
        rw [hstill h', List.append_nil,
          Moves.sends_eq (.went popped takes early effect inReach) hu.unfinished hb hc]
        exact ⟨kept, under', flight', h'⟩
      · have h' := h.rests hu takes effect hnot hb
        rw [hstill h', hsends hb, List.append_nil, List.append_nil]
        exact ⟨kept, under, flight, h'⟩

/-! ## A whole run -/

theorem Relays.frame (h : Relays l sent accepted kept sim)
    (heq : ∀ k a, sim'.sentTo k a = sim.sentTo k a ∧ sim'.receivedFrom k a = sim.receivedFrom k a ∧
      sim'.heardFrom k a = sim.heardFrom k a) : Relays l sent accepted kept sim' :=
  ⟨h.delayed, (heq _ _).1.trans h.sentCount, (heq _ _).2.1.trans h.keptCount,
    (heq _ _).2.2.trans h.heard⟩

theorem traffic_refuse (sim : Simulation) (a : Address) : ∀ k b,
    (sim.refuse a).sentTo k b = sim.sentTo k b ∧
      (sim.refuse a).receivedFrom k b = sim.receivedFrom k b ∧
      (sim.refuse a).heardFrom k b = sim.heardFrom k b := by
  obtain ⟨_, heq⟩ := sim.refuse_eq a
  rw [heq]
  exact fun _ _ => ⟨rfl, rfl, rfl⟩

theorem Linked.refuse (h : Linked l sent accepted kept under flight sim) (a : Address) :
    Linked l sent accepted kept under flight (sim.refuse a) := by
  have hrelays := h.relays.frame (traffic_refuse sim a)
  obtain ⟨_, heq⟩ := sim.refuse_eq a
  rw [heq] at hrelays ⊢
  exact ⟨h.joins.frame rfl rfl, hrelays, h.order, h.flying, h.live, h.sorted, h.soon⟩

/-- A step in which nothing is dispatched neither sends nor accepts anything. -/
theorem idle_move {m : Move} (h : m.occurrences = []) (i k : Nat) (a : Address) :
    m.sends i = [] ∧ m.accepts k a = [] := by
  constructor
  · unfold Move.sends
    cases m.before.crafts[i]? with
    | none => rfl
    | some c => simp [h]
  · unfold Move.accepts
    split
    · rw [h]
      rfl
    · rfl

/-- What a link has come to while the run goes on, and when it is over. -/
theorem Travels.linked (h : first.Travels moves sim) (hu : first.Underway)
    (hfirst : Linked l [] [] [] [] [] first) :
    (sim.Underway ∧ ∃ kept under flight,
      Linked l (l.sent moves) (l.accepted moves) kept under flight sim) ∨
    sim.finished = true ∧ ∃ kept, kept.Sublist (l.sent moves) ∧
      Relays l (l.sent moves) (l.accepted moves) kept sim := by
  have hidle : ∀ moves (m : Move), m.occurrences = [] →
      l.sent (moves ++ [m]) = l.sent moves ∧ l.accepted (moves ++ [m]) = l.accepted moves := by
    intro moves m hm
    obtain ⟨hsends, haccepts⟩ := idle_move hm l.sender l.receiver l.source
    rw [l.sent_concat, l.accepted_concat, hsends, haccepts, List.append_nil, List.append_nil]
    exact ⟨rfl, rfl⟩
  refine h.induction (P := fun moves sim => ∃ kept under flight,
      Linked l (l.sent moves) (l.accepted moves) kept under flight sim)
    (Q := fun moves sim => ∃ kept, kept.Sublist (l.sent moves) ∧
      Relays l (l.sent moves) (l.accepted moves) kept sim) hu ⟨[], [], [], hfirst⟩ ?_ ?_ ?_ ?_ ?_
  · rintro moves sim a - ⟨kept, under, flight, hl⟩
    exact ⟨kept, under, flight, hl.refuse a⟩
  · rintro moves sim e r sim' hu hm - ⟨kept, under, flight, hl⟩
    rw [l.sent_concat, l.accepted_concat]
    exact hl.move hu hm
  · rintro moves sim sim' hu hc ⟨kept, under, flight, hl⟩
    obtain ⟨hsent, haccepted⟩ := hidle moves ⟨sim, .ok false, sim'⟩ (hc.occurrences _)
    rw [hsent, haccepted]
    exact ⟨kept, (List.sublist_append_left _ _).trans hl.order, hl.relays.frame hc.traffic⟩
  · rintro moves sim a - ⟨kept, horder, hr⟩
    exact ⟨kept, horder, hr.frame (traffic_refuse sim a)⟩
  · rintro moves sim hf ⟨kept, horder, hr⟩
    obtain ⟨hsent, haccepted⟩ := hidle moves ⟨sim, .ok false, sim⟩ (if_pos hf)
    rw [hsent, haccepted]
    exact ⟨kept, horder, hr⟩

/-- At first a link is empty. -/
theorem Built.linked {s : Settings} (h : first.Built s) (hj : l.Joins first) :
    Linked l [] [] [] [] [] first := by
  obtain ⟨shared, -, hcrafts⟩ := h.crafts
  obtain ⟨c, hc, -⟩ := exists_craft_of_ids hj.source
  obtain ⟨c', hc', -⟩ := exists_craft_of_ids hj.target
  refine ⟨hj, ⟨.nil, ?_, ?_, ?_⟩, .slnil, .nil, ?_, .nil, fun x hx => absurd hx List.not_mem_nil⟩
  · obtain ⟨_, _, rfl⟩ := hcrafts _ c hc
    exact sentTo_eq hc
  · obtain ⟨_, _, rfl⟩ := hcrafts _ c' hc'
    exact receivedFrom_eq hc'
  · obtain ⟨_, _, rfl⟩ := hcrafts _ c' hc'
    exact heardFrom_eq hc'
  · exact List.Perm.of_eq (h.awaited fun _ => exists_of_links).symm

/-- Any two agents have a link. -/
theorem Travels.joins (h : first.Travels moves sim) (hu : first.Underway) {sender receiver : Craft}
    (hi : sim.crafts[i]? = some sender) (hk : sim.crafts[k]? = some receiver) (hne : i ≠ k) :
    Route.Joins ⟨i, sender.agent.id, k, receiver.agent.id, first.world.network.link.latency⟩
      first := by
  have hids : first.ids = sim.ids := (ids_eq_of_roster (h.roster_eq hu)).symm
  refine ⟨?_, ?_, hne, rfl⟩
  · rw [hids, ids, List.getElem?_map, hi]
    rfl
  · rw [hids, ids, List.getElem?_map, hk]
    rfl

/-- Every link is first in, first out : in any run, the states that one agent accepts from another
are some of those that the other has broadcast to it, in the same order and one latency later,
and the last of them is what its table says. -/
theorem accepts_in_order {s : Settings} {positions : List Vec3} {telemetry : Telemetry}
    {j j' : Journal} (hbuilt : withPositions s positions telemetry j = .ok first j')
    (hrun : first.Travels moves sim) {sender receiver : Craft}
    (hi : sim.crafts[i]? = some sender) (hk : sim.crafts[k]? = some receiver) (hne : i ≠ k) :
    ∃ link, s.link = .ok link ∧
    ∃ kept : List Report, kept.Sublist (moves.flatMap (·.sends i)) ∧
      List.Forall₂ (Report.Delayed link.latency) kept
        (moves.flatMap (·.accepts k sender.agent.id)) ∧
      receiver.agent.table.get? sender.agent.id = kept.getLast?.map Report.beacon ∧
      (receiver.agent.table.contains sender.agent.id ↔ kept ≠ []) ∧
      sender.agent.sent.get receiver.agent.id = (moves.flatMap (·.sends i)).length ∧
      receiver.agent.received.get sender.agent.id = kept.length := by
  have hb := built_of_withPositions hbuilt
  let l : Route := ⟨i, sender.agent.id, k, receiver.agent.id, first.world.network.link.latency⟩
  have hjoins : l.Joins first := hrun.joins hb.underway hi hk hne
  obtain ⟨kept, horder, hrelays⟩ : ∃ kept, kept.Sublist (l.sent moves) ∧
      Relays l (l.sent moves) (l.accepted moves) kept sim := by
    rcases hrun.linked hb.underway (hb.linked hjoins) with
      ⟨-, kept, under, flight, hl⟩ | ⟨-, hover⟩
    · exact ⟨kept, (List.sublist_append_left _ _).trans hl.order, hl.relays⟩
    · exact hover
  have hheard := (heardFrom_eq hk).symm.trans hrelays.heard
  refine ⟨_, hb.link, kept, horder, hrelays.delayed, hheard, ?_,
    (sentTo_eq hi).symm.trans hrelays.sentCount, (receivedFrom_eq hk).symm.trans hrelays.keptCount⟩
  rw [PeerTable.contains_iff, hheard, Option.isSome_map, Option.isSome_iff_ne_none, ne_eq,
    List.getLast?_eq_none_iff]

theorem accepts_in_order_pair : ∃ first j' moves last sender receiver,
    withPositions .pair [⟨0.0, 0.0, 0.0⟩, ⟨1.0, 0.0, 0.0⟩] (.recorder {})
      (Journal.ofThreshold none) = .ok first j' ∧ first.Travels moves last ∧
      last.finished = true ∧ last.crafts[0]? = some sender ∧ last.crafts[1]? = some receiver ∧
      ∃ link, Settings.pair.link = .ok link ∧
      ∃ kept : List Report, kept.Sublist (moves.flatMap (·.sends 0)) ∧
        List.Forall₂ (Report.Delayed link.latency) kept
          (moves.flatMap (·.accepts 1 sender.agent.id)) ∧
        receiver.agent.received.get sender.agent.id = kept.length := by
  obtain ⟨first, j', moves, last, hbuilt, hrun, hfinished, -, hids⟩ := exists_pair_run
  obtain ⟨sender, hsender, -⟩ := exists_craft_of_ids (i := 0) (by rw [hids]; rfl)
  obtain ⟨receiver, hreceiver, -⟩ := exists_craft_of_ids (i := 1) (by rw [hids]; rfl)
  obtain ⟨link, hlink, kept, horder, hdelayed, -, -, -, hcount⟩ :=
    accepts_in_order hbuilt hrun hsender hreceiver Nat.zero_ne_one
  exact ⟨first, j', moves, last, sender, receiver, hbuilt, hrun, hfinished, hsender, hreceiver,
    link, hlink, kept, horder, hdelayed, hcount⟩

end Simulation

end SwarmFlight
