import SwarmFlight.Proofs.Number.Arithmetic
import SwarmFlight.Proofs.Run.Observation

/-!
# Runs in which nothing is lost

A link with a loss of zero hands every datagram over one latency after it was sent. So what an
agent receives of another one in a whole run can be told from the settings alone : it is the
number of broadcasts that arrive before the stop time, and not before the receiver has started
(`lossless_delivery`). Nothing else depends on the seed.

Two things are shown along the run. What was broadcast has arrived or is still under way
(`Conveys.conserved`), so at the end all that was due before the stop time has arrived. And a
datagram is received just if it does not arrive before the receiver starts (`Conveys.received`);
if both are due at the same time then the start takes place first, since starts were scheduled
in the beginning (`StartsFirst`).
-/

namespace SwarmFlight

/-! ## Times on a link -/

/-- When datagrams arrived on a link, in nanoseconds. -/
def Simulation.Route.arrivals (l : Simulation.Route) (log : List Occurrence) : List Nat :=
  (log.filter fun o => o.event.links l.source l.target).map (·.time.nanos)

/-- When the datagrams arrive that are under way on a link, in nanoseconds. -/
def Simulation.Route.flight (l : Simulation.Route) (sim : Simulation) : List Nat :=
  (sim.world.queue.awaited (Event.links l.source l.target)).map (·.due.nanos)

/-- When the broadcasts of the sender of a link arrive, in nanoseconds. -/
def Simulation.Route.expected (l : Simulation.Route) (log : List Occurrence) : List Nat :=
  (timesOf log (.duty l.sender .broadcast)).map (· + l.latency.nanos)

theorem Periodic.length_eq {start period stop : Nat} {times times' : List Nat}
    (h : Periodic start period stop times) (h' : Periodic start period stop times') :
    times.length = times'.length :=
  eq_of_forall_lt_iff fun k => (h.2 k).trans (h'.2 k).symm

/-- When the agent of an index broadcasts for the time of number `n`, in nanoseconds. -/
def Timetable.broadcastAt (t : Timetable) (i n : Nat) : Nat :=
  (t.startOf i).nanos + n * t.agents.packetInterval.nanos

/-- If all that is missing was due after the stop time, then what has arrived from `ready` on are
the ticks that are late enough and early enough. -/
theorem exists_card_arrivals {start period stop latency ready : Nat} {times arrived missing : List Nat}
    (hperiodic : Periodic start period stop times)
    (hconserved : (arrived ++ missing).Perm (times.map (· + latency)))
    (hearly : ∀ x ∈ arrived, x < stop) (hlate : ∀ x ∈ missing, stop ≤ x) :
    ∃ ks : Finset Nat, (∀ k, k ∈ ks ↔ start + k * period < stop ∧
      start + k * period + latency < stop ∧ ready ≤ start + k * period + latency) ∧
      arrived.countP (ready ≤ ·) = ks.card := by
  obtain ⟨hticks, hbefore⟩ := hperiodic
  let due : Nat → Bool := fun x => x < stop && ready ≤ x
  let hits := (List.range times.length).filter fun k => due (start + k * period + latency)
  refine ⟨hits.toFinset, fun k => ?_, ?_⟩
  · rw [List.mem_toFinset, List.mem_filter, List.mem_range, hbefore]
    simp [due]
  · have hnone : missing.countP due = 0 :=
      List.countP_eq_zero.2 fun x hx => by simp [due, Nat.not_lt.2 (hlate x hx)]
    have hall : arrived.countP (ready ≤ ·) = (times.map (· + latency)).countP due := by
      rw [← hconserved.countP_eq, List.countP_append, hnone, Nat.add_zero]
      exact List.countP_congr fun x hx => by simp [due, hearly x hx]
    rw [List.toFinset_card_of_nodup (List.nodup_range.filter _), ← List.countP_eq_length_filter,
      hall, hticks, ticks, List.map_map, List.countP_map, List.length_map, List.length_range]
    rfl

/-- Runnable settings stay so with another seed. -/
theorem Settings.Runnable.reseeded {s : Settings} (h : s.Runnable) (seed : UInt64) :
    Settings.Runnable { s with seed } := by
  obtain ⟨stop, start, period, due, link, agents, hstop, hstart, hperiod, hdue, hlink, hagents,
    hall⟩ := h
  refine ⟨stop, start, period, due, { link with seed }, agents, hstop, hstart, hperiod, hdue, ?_,
    hagents, hall⟩
  obtain ⟨hlatency, hloss, -⟩ := Simulation.link_eq_ok hlink
  simp only [Settings.link, hlatency, hloss]
  rfl

namespace Simulation

open Run

variable {first sim sim₁ sim' : Simulation} {log : List Occurrence} {e x : Entry Event}
  {q : EventQueue Event} {r : Except Failure Bool} {i k : Nat} {c : Craft} {l : Route}
  {ready : Instant}

/-! ## Starts and arrivals -/

/-- What is pending after a move was pending before, or it is no start and was scheduled later than
all that. -/
theorem Moves.mem_live (hm : sim.Moves e (.ok true) sim') (hx : x ∈ sim'.world.queue.live) :
    x ∈ sim.world.queue.live ∨
      sim.world.queue.nextId ≤ x.id ∧ ∀ i, x.event ≠ .start i := by
  cases hm with
  | @went q sim₁ _ takes _ effect =>
    obtain ⟨_, hleads⟩ := effect.leads
    have hq : (sim.withQueue q).world.queue.WellFormed := takes.wellFormed
    have hnext : (sim.withQueue q).world.queue.nextId = sim.world.queue.nextId := takes.nextId
    rw [← hnext]
    rcases List.mem_append.1 ((effect.wellFormed hq).live_scheduleAll.mem_iff.1 hx) with hx | hx
    · refine .inr ⟨Nat.le_trans ?_ (EventQueue.le_id_of_mem_newEntries hx), fun i hi => ?_⟩
      · rw [hleads.queue]
        exact EventQueue.nextId_le_scheduleAll
      · obtain ⟨y, hy, hyx, -⟩ := EventQueue.exists_of_mem_newEntries hx
        obtain ⟨d, -, rfl⟩ := List.mem_map.1 hy
        cases hyx.trans hi
    · rw [hleads.queue] at hx
      rcases List.mem_append.1 (hq.live_scheduleAll.mem_iff.1 hx) with hx | hx
      · refine .inr ⟨EventQueue.le_id_of_mem_newEntries hx, fun i hi => ?_⟩
        obtain ⟨y, hy, hyx, -⟩ := EventQueue.exists_of_mem_newEntries hx
        exact start_not_mem_successors hy (hyx.trans hi)
      · exact .inl (takes.live.mem_iff.2 (List.mem_cons_of_mem _ hx))

/-- Starts were scheduled before all datagrams that are on their way. -/
def StartsFirst (sim : Simulation) : Prop :=
  ∀ x ∈ sim.world.queue.live, ∀ y ∈ sim.world.queue.live, ∀ i d,
    x.event = .start i → y.event = .arrival d → x.id < y.id

theorem StartsFirst.move (h : sim.StartsFirst) (hu : sim.Underway)
    (hm : sim.Moves e (.ok true) sim') : sim'.StartsFirst := by
  intro x hx y hy i d hstart harrival
  rcases hm.mem_live hx with hx | ⟨-, hnot⟩
  · rcases hm.mem_live hy with hy | ⟨hlater, -⟩
    · exact h x hx y hy i d hstart harrival
    · exact (hu.sound.queue.fresh x (EventQueue.mem_live.1 hx).1).trans_le hlater
  · exact absurd hstart (hnot i)

theorem Built.startsFirst {s : Settings} (h : first.Built s) : first.StartsFirst := by
  intro x _ y hy i d _ harrival
  rcases h.event_of_live hy with ⟨_, -, hstart⟩ | hsample
  · cases harrival.symm.trans hstart
  · cases harrival.symm.trans hsample

/-- Nothing was dispatched later than now. -/
theorem Proceeds.past (h : first.Proceeds log sim) : ∀ o ∈ log, o.time ≤ sim.world.clock := by
  induction h with
  | first => exact fun o ho => absurd ho List.not_mem_nil
  | @refuse _ sim a _ ih =>
    obtain ⟨_, heq⟩ := sim.refuse_eq a
    rw [heq]
    exact ih
  | @move _ sim _ e h _ moves _ ih =>
    obtain ⟨q, -, takes⟩ := moves.popped
    rw [moves.clock_eq]
    intro o ho
    rcases List.mem_append.1 ho with ho | ho
    · exact Nat.le_trans (ih o ho)
        (h.underway.sound.queue.ahead e (EventQueue.mem_live.1 takes.mem).1)
    · rw [List.mem_singleton.1 ho]
      exact Nat.le_refl _

theorem Proceeds.startsFirst (h : first.Proceeds log sim) (hfirst : first.StartsFirst) :
    sim.StartsFirst := by
  induction h with
  | first => exact hfirst
  | @refuse _ sim a _ ih =>
    obtain ⟨_, heq⟩ := sim.refuse_eq a
    rw [heq]
    exact ih
  | move h _ moves _ ih => exact ih.move h.underway moves

/-- When a datagram arrives, an agent is there just if it is not to start later. -/
theorem Timely.isBound_iff {shared : AgentSettings} {d : Datagram}
    (h : Timely shared ready k log sim) (hu : sim.Underway) (hstarts : sim.StartsFirst)
    (hpast : ∀ o ∈ log, o.time ≤ sim.world.clock) (takes : sim.world.queue.Takes e q)
    (hevent : e.event = .arrival d) (hc : sim.crafts[k]? = some c) :
    sim.world.network.isBound c.agent.id ↔ ready ≤ e.due := by
  have hstation := hu.stationed k c hc
  cases h with
  | waits pending =>
    obtain ⟨x, hx, hstart, rfl⟩ := EventQueue.mem_dues.1
      (show ready ∈ sim.dues (.start k) by rw [pending]; exact List.mem_singleton_self _)
    obtain ⟨-, -, -, hfree, -⟩ := hstation.of_start hx hstart
    refine iff_of_false (Bool.eq_false_iff.1 hfree) ?_
    -- a start that is due at the same time would have been taken first
    have hbefore := takes.first x hx
    rw [Entry.before_iff, Entry.key_le_iff, hu.sound.ranked e takes.mem, hu.sound.ranked x hx,
      hevent, hstart] at hbefore
    rcases hbefore with hlt | ⟨-, hrank | ⟨-, hid⟩⟩
    · exact Duration.not_le.2 hlt
    · exact absurd hrank (Nat.lt_irrefl _)
    · exact absurd hid (Nat.not_le.2 (hstarts x hx e takes.mem k d hstart hevent))
  | runs done once duties =>
    refine iff_of_true ?_ ?_
    · obtain ⟨t, hnext, -⟩ := (duties .broadcast nofun).next
      obtain ⟨x, hx, hduty, -⟩ := EventQueue.mem_dues.1
        (show t ∈ sim.dues (.duty k .broadcast) by rw [hnext]; exact List.mem_singleton_self _)
      exact (hstation.of_duty hx hduty).2.1
    · have hmem : ready.nanos ∈ timesOf log (.start k) := by
        rw [once]
        exact List.mem_singleton_self _
      obtain ⟨o, ho, htime⟩ := List.mem_map.1 hmem
      rw [Duration.le_def, ← htime]
      exact Nat.le_trans (hpast o (List.mem_filter.1 ho).1)
        (hu.sound.queue.ahead e (EventQueue.mem_live.1 takes.mem).1)

/-! ## What a link conveys -/

/-- What holds of a link that loses nothing : what was broadcast has arrived or is under way, and
what has arrived since the receiver is `ready` was received. -/
structure Conveys (l : Route) (ready : Instant) (log : List Occurrence) (sim : Simulation) :
    Prop where
  joins : l.Joins sim
  clear : sim.world.network.link.loss ≤ 0.0
  conserved : (l.arrivals log ++ l.flight sim).Perm (l.expected log)
  received : sim.receivedFrom l.receiver l.source = (l.arrivals log).countP (ready.nanos ≤ ·)

theorem Route.arrivals_concat (l : Route) (log : List Occurrence) (o : Occurrence) :
    l.arrivals (log ++ [o]) = l.arrivals log ++
      if o.event.links l.source l.target then [o.time.nanos] else [] := by
  rw [arrivals, List.filter_append, List.map_append, List.filter_singleton]
  cases o.event.links l.source l.target <;> rfl

theorem Route.expected_concat_of_ne {o : Occurrence} (h : o.event ≠ .duty l.sender .broadcast) :
    l.expected (log ++ [o]) = l.expected log := by
  rw [expected, timesOf_concat_of_ne h]
  rfl

/-- A datagram that arrives is no longer under way. -/
theorem Conveys.conserved_of_links (h : Conveys l ready log sim) (hu : sim.Underway)
    (takes : sim.world.queue.Takes e q) (effect : (sim.withQueue q).Effect e.event sim₁)
    (hlinks : e.event.links l.source l.target) :
    (l.arrivals (log ++ [sim.occurrence e r]) ++ l.flight sim₁.flushed).Perm
      (l.expected (log ++ [sim.occurrence e r])) := by
  obtain ⟨d, hd⟩ := exists_of_links hlinks
  have hne : ∀ i, e.event ≠ .duty i .broadcast := fun i hi => nomatch hd.symm.trans hi
  have hflight : (l.flight sim).Perm (e.due.nanos :: l.flight sim₁.flushed) := by
    rw [flushed_of_empty (hu.outbox_eq effect hne)]
    exact ((takes.awaited_of_pos hlinks).trans
      ((effect.awaited takes.wellFormed fun _ => exists_of_links).symm.cons e)).map (·.due.nanos)
  rw [Route.arrivals_concat, if_pos (by exact hlinks), Route.expected_concat_of_ne (hne l.sender),
    List.append_assoc]
  exact (hflight.symm.append_left _).trans h.conserved

/-- What is broadcast is under way. -/
theorem Conveys.conserved_of_broadcast (h : Conveys l ready log sim) (hu : sim.Underway)
    (takes : sim.world.queue.Takes e q) (effect : (sim.withQueue q).Effect e.event sim₁)
    (inReach : sim₁.InReach) (hevent : e.event = .duty l.sender .broadcast) :
    (l.arrivals (log ++ [sim.occurrence e r]) ++ l.flight sim₁.flushed).Perm
      (l.expected (log ++ [sim.occurrence e r])) := by
  obtain ⟨c, hc, -⟩ := exists_craft_of_ids h.joins.source
  obtain ⟨_, hleads⟩ := effect.leads
  have hnot : e.event.links l.source l.target = false := by
    rw [hevent]
    rfl
  have hall : sim₁.world.collect.1 = sim₁.world.network.outbox.toList := by
    show (Network.sortOut _ _ _).surviving = _
    rw [Network.sortOut_of_le_zero (by rw [hleads.link]; exact h.clear)]
  obtain ⟨x, hx⟩ : ∃ x, sim₁.departures (Event.links l.source l.target) = [x] := by
    have hmap := sim₁.departures_map (Event.links l.source l.target)
    rw [hall, h.joins.filter_outbox hu takes effect hevent hc, List.map_singleton,
      List.map_eq_singleton_iff] at hmap
    exact hmap.imp fun x hx => hx.1
  have hdue : x.due.nanos = e.due.nanos + l.latency.nanos := by
    rw [inReach.due_of_departs (hx ▸ List.mem_singleton_self x), effect.clock_eq takes, hleads.link,
      show (sim.withQueue q).world.network.link.latency = _ from h.joins.latency]
  have hflight : (l.flight sim₁.flushed).Perm ((e.due.nanos + l.latency.nanos) :: l.flight sim) := by
    have hlinks := (effect.links_flushed takes hnot).map (·.due.nanos)
    rwa [hx, List.singleton_append, List.map_cons, hdue] at hlinks
  have hexpected : l.expected (log ++ [sim.occurrence e r]) =
      l.expected log ++ [e.due.nanos + l.latency.nanos] := by
    rw [Route.expected, timesOf_concat_self (o := sim.occurrence e r) hevent, List.map_append]
    rfl
  rw [Route.arrivals_concat, show (sim.occurrence e r).event.links l.source l.target = _ from hnot,
    hexpected, if_neg Bool.false_ne_true, List.append_nil]
  exact (hflight.append_left _).trans (List.perm_middle.trans
    ((h.conserved.cons _).trans (List.perm_append_singleton _ _).symm))

/-- Nothing else changes what is under way. -/
theorem Conveys.conserved_of_ne (h : Conveys l ready log sim) (hu : sim.Underway)
    (takes : sim.world.queue.Takes e q) (effect : (sim.withQueue q).Effect e.event sim₁)
    (hnot : e.event.links l.source l.target = false)
    (hne : e.event ≠ .duty l.sender .broadcast) :
    (l.arrivals (log ++ [sim.occurrence e r]) ++ l.flight sim₁.flushed).Perm
      (l.expected (log ++ [sim.occurrence e r])) := by
  have hflight : (l.flight sim₁.flushed).Perm (l.flight sim) := by
    have hlinks := effect.links_flushed takes hnot
    rw [h.joins.departures_eq_nil hu takes effect hne, List.nil_append] at hlinks
    exact hlinks.map (·.due.nanos)
  rw [Route.arrivals_concat, show (sim.occurrence e r).event.links l.source l.target = _ from hnot,
    Route.expected_concat_of_ne hne, if_neg Bool.false_ne_true, List.append_nil]
  exact (hflight.append_left _).trans h.conserved

/-- What arrives is received if the receiver is there. -/
theorem Conveys.received_of_effect (h : Conveys l ready log sim) (hu : sim.Underway)
    (effect : (sim.withQueue q).Effect e.event sim₁)
    (hready : ∀ d c, e.event = .arrival d → sim.crafts[l.receiver]? = some c →
      (sim.world.network.isBound c.agent.id ↔ ready ≤ e.due)) :
    sim₁.flushed.receivedFrom l.receiver l.source =
      (l.arrivals (log ++ [sim.occurrence e r])).countP (ready.nanos ≤ ·) := by
  obtain ⟨c, hc, hid⟩ := exists_craft_of_ids h.joins.target
  rw [Route.arrivals_concat, List.countP_append, ← h.received]
  rcases effect.reception (hu.fleet.of_roster rfl rfl) hc (hu.knows _ c hc).owner l.source with
    ⟨hnot, hcount, -⟩ | ⟨d, _, hevent, hsource, htarget, hbound, -, hcount, -⟩
  · refine hcount.trans (Nat.left_eq_add.2 (List.countP_eq_zero.2 fun t ht => ?_))
    split at ht
    · rename_i hlinks
      have hlinks : e.event.links l.source l.target := hlinks
      obtain ⟨d, hd⟩ := exists_of_links hlinks
      rw [List.mem_singleton.1 ht, decide_eq_true_eq]
      exact fun hle => hnot ⟨hid.symm ▸ hlinks, (hready d c hd hc).2 hle⟩
    · exact absurd ht List.not_mem_nil
  · have hlinks : (sim.occurrence e r).event.links l.source l.target := by
      rw [show (sim.occurrence e r).event = _ from hevent, Event.links_arrival]
      exact ⟨hsource, htarget.trans hid⟩
    have hle : ready.nanos ≤ (sim.occurrence e r).time.nanos := (hready d c hevent hc).1 hbound
    rw [if_pos hlinks, List.countP_singleton, if_pos (decide_eq_true hle)]
    exact hcount

theorem Conveys.move (h : Conveys l ready log sim) (hu : sim.Underway)
    (hm : sim.Moves e (.ok true) sim')
    (hready : ∀ d c, e.event = .arrival d → sim.crafts[l.receiver]? = some c →
      (sim.world.network.isBound c.agent.id ↔ ready ≤ e.due)) :
    Conveys l ready (log ++ [sim.occurrence e (.ok true)]) sim' := by
  cases hm with
  | @went q sim₁ _ takes _ effect inReach =>
    obtain ⟨_, hleads⟩ := effect.leads
    refine ⟨h.joins.flushed effect, ?_, ?_, h.received_of_effect hu effect hready⟩
    · show sim₁.world.network.link.loss ≤ 0.0
      rw [hleads.link]
      exact h.clear
    · by_cases hlinks : e.event.links l.source l.target
      · exact h.conserved_of_links hu takes effect hlinks
      · by_cases hb : e.event = .duty l.sender .broadcast
        · exact h.conserved_of_broadcast hu takes effect inReach hb
        · exact h.conserved_of_ne hu takes effect (Bool.eq_false_iff.2 hlinks) hb

theorem Conveys.refuse (h : Conveys l ready log sim) (a : Address) :
    Conveys l ready log (sim.refuse a) := by
  obtain ⟨_, heq⟩ := sim.refuse_eq a
  rw [heq]
  exact ⟨h.joins.frame rfl rfl, h.clear, h.conserved, h.received⟩

/-- At first nothing has been sent. -/
theorem Built.conveys {s : Settings} (h : first.Built s) (hj : l.Joins first)
    (hclear : first.world.network.link.loss ≤ 0.0) : Conveys l ready [] first := by
  obtain ⟨shared, -, hcrafts⟩ := h.crafts
  obtain ⟨c, hc, -⟩ := exists_craft_of_ids hj.target
  refine ⟨hj, hclear, ?_, ?_⟩
  · rw [Route.flight, h.awaited fun _ => exists_of_links]
    exact .nil
  · obtain ⟨_, _, rfl⟩ := hcrafts _ c hc
    exact receivedFrom_eq hc

/-! ## A whole run -/

theorem Proceeds.conveys {t : Timetable} (h : first.Proceeds log sim)
    (hfirst : OnSchedule t [] first) (hstarts : first.StartsFirst)
    (hconveys : Conveys l (t.startOf l.receiver) [] first) :
    Conveys l (t.startOf l.receiver) log sim := by
  induction h with
  | first => exact hconveys
  | refuse a _ ih => exact ih.refuse a
  | move h _ moves _ ih =>
    obtain ⟨q, -, takes⟩ := moves.popped
    refine ih.move h.underway moves fun d c hevent hc => ?_
    exact ((h.onSchedule hfirst).agents _ (List.getElem?_eq_some_iff.1 hc).1).isBound_iff
      h.underway (h.startsFirst hstarts) h.past takes hevent hc

/-- A link that loses nothing has lost nothing. -/
theorem Proceeds.lost_eq (h : first.Proceeds log sim)
    (hclear : first.world.network.link.loss ≤ 0.0) (hfirst : first.stats.lost = 0) :
    sim.world.network.link.loss ≤ 0.0 ∧ sim.stats.lost = 0 := by
  induction h with
  | first => exact ⟨hclear, hfirst⟩
  | @refuse _ sim a _ ih =>
    obtain ⟨_, heq⟩ := sim.refuse_eq a
    rw [heq]
    exact ih
  | move _ _ moves _ ih =>
    cases moves with
    | @went q sim₁ _ _ _ effect =>
      obtain ⟨_, hleads⟩ := effect.leads
      obtain ⟨_, _, _, htallies, -⟩ := effect.tallies
      have hclear : sim₁.world.network.link.loss ≤ 0.0 := by
        rw [hleads.link]
        exact ih.1
      have hlost : sim₁.stats.lost = 0 := (congrArg Stats.lost htallies.stats).trans ih.2
      refine ⟨hclear, ?_⟩
      show sim₁.stats.lost + (Network.sortOut _ _ _).lost.length = 0
      rw [Network.sortOut_of_le_zero hclear, hlost]
      rfl

/-- What an agent receives of another one in a whole run. -/
theorem Reaches.exists_card_received {t : Timetable} (h : first.Reaches log sim)
    (hu : first.Underway) (hfirst : OnSchedule t [] first) (hstarts : first.StartsFirst)
    (hconveys : Conveys l (t.startOf l.receiver) [] first) (hf : sim.finished = true)
    (hallowed : sim.Allows) : ∃ ks : Finset Nat,
      (∀ n, n ∈ ks ↔ t.broadcastAt l.sender n < t.stop.nanos ∧
        t.broadcastAt l.sender n + l.latency.nanos < t.stop.nanos ∧
        (t.startOf l.receiver).nanos ≤ t.broadcastAt l.sender n + l.latency.nanos) ∧
      sim.receivedFrom l.receiver l.source = ks.card := by
  have hkept := h.kept hu hfirst hf hallowed
  obtain ⟨last, ended, refused, hp, hc, rfl⟩ := h.exists_closes hu hf hallowed
  have hlast := hp.conveys hfirst hstarts hconveys
  have htimes := hp.onSchedule hfirst
  have hi : l.sender < ended.crafts.length := by
    obtain ⟨c, hcraft, -⟩ := exists_craft_of_ids hlast.joins.source
    rw [length_eq_of_roster hc.roster_eq]
    exact (List.getElem?_eq_some_iff.1 hcraft).1
  have hearly : ∀ x ∈ l.arrivals log, x < t.stop.nanos := by
    intro x hx
    obtain ⟨o, ho, rfl⟩ := List.mem_map.1 hx
    exact htimes.early o (List.mem_filter.1 ho).1
  have hlate : ∀ x ∈ l.flight last, t.stop.nanos ≤ x := by
    intro x hx
    obtain ⟨y, hy, rfl⟩ := List.mem_map.1 hx
    rw [← htimes.stopTime]
    exact hc.late y (EventQueue.mem_awaited.1 hy).1
  obtain ⟨ks, hks, hcard⟩ := exists_card_arrivals
    (hkept.duties l.sender hi .broadcast nofun) hlast.conserved hearly hlate
  exact ⟨ks, hks, ((hc.traffic l.receiver l.source).2.1.trans hlast.received).trans hcard⟩

/-! ## Seeds -/

theorem SameOutcome.summary_eq (h : SameOutcome sim sim')
    (hcount : sim.world.queue.dispatched = sim'.world.queue.dispatched) :
    sim.summary = sim'.summary := by
  have htime := h.time
  have hcrafts := h.crafts
  have hstats := h.stats
  simp only [summary] at htime hcrafts hstats ⊢
  rw [hcrafts, htime, hcount, hstats]

/-- Where nothing is lost the seed makes no difference. -/
theorem Reaches.same_of_seed {s : Settings} {seed : UInt64} {positions : List Vec3}
    {telemetry : Telemetry} {j j' k k' : Journal} {first' : Simulation} {log' : List Occurrence}
    (hbuilt : withPositions s positions telemetry j = .ok first j')
    (hbuilt' : withPositions { s with seed } positions telemetry k = .ok first' k')
    (hclear : s.packetLoss ≤ 0.0) (hrun : first.Reaches log sim) (hrun' : first'.Reaches log' sim')
    (hf : sim.finished = true) (hf' : sim'.finished = true) (hallowed : sim.Allows)
    (hallowed' : sim'.Allows) : SameOutcome sim sim' ∧ sim.summary = sim'.summary := by
  have hb := built_of_withPositions hbuilt
  have hb' := built_of_withPositions hbuilt'
  have halike : first.Alike first' := alike_of_withPositions hbuilt hbuilt' (.inl hclear)
  obtain ⟨houtcome, hlog⟩ := hrun.sameOutcome halike hb.underway hb'.underway hb.clock_eq
    hb'.clock_eq hrun' hf hf' hallowed hallowed'
  refine ⟨houtcome, houtcome.summary_eq ?_⟩
  obtain ⟨t, hfits, hfirst⟩ := hb.onSchedule
  obtain ⟨t', hfits', hfirst'⟩ := hb'.onSchedule
  have hperiod : t'.period = t.period := Except.ok.inj (hfits'.period.symm.trans hfits.period)
  have hstop : t'.stop = t.stop := Except.ok.inj (hfits'.stop.symm.trans hfits.stop)
  have hsamples := (hrun.kept hb.underway hfirst hf hallowed).sample
  have hsamples' := (hrun'.kept hb'.underway hfirst' hf' hallowed').sample
  rw [hperiod, hstop] at hsamples'
  rw [(hrun.counted hb.underway hb.counted).dispatched,
    (hrun'.counted hb'.underway hb'.counted).dispatched, length_eq_mattering_add,
    length_eq_mattering_add log', hlog, hsamples.length_eq hsamples']

/-- Runs whose link loses nothing. When such a run is over, and no address of an agent was refused,
every agent has received from every other one just the broadcasts that were to arrive before the
stop time, and not before it started; nothing was lost; and with any other seed the run comes to
the same end. -/
theorem lossless_delivery {s : Settings} {positions : List Vec3} {telemetry : Telemetry}
    {j j' : Journal} (hbuilt : withPositions s positions telemetry j = .ok first j')
    (hloss : s.packetLoss == 0.0) (hrun : first.Reaches log sim) (hf : sim.finished = true)
    (hallowed : sim.Allows) : ∃ (t : Timetable) (link : Link), t.Fits s ∧ s.link = .ok link ∧
      (∀ (i k : Nat) (sender receiver : Craft), sim.crafts[i]? = some sender →
        sim.crafts[k]? = some receiver → i ≠ k → ∃ ks : Finset Nat,
          (∀ n, n ∈ ks ↔ t.broadcastAt i n < t.stop.nanos ∧
            t.broadcastAt i n + link.latency.nanos < t.stop.nanos ∧
            (t.startOf k).nanos ≤ t.broadcastAt i n + link.latency.nanos) ∧
          receiver.agent.received.get sender.agent.id = ks.card) ∧
      sim.summary.stats.lost = 0 ∧
      ∀ (seed : UInt64) (first' sim' : Simulation) (k k' : Journal) (log' : List Occurrence),
        withPositions { s with seed } positions telemetry k = .ok first' k' →
        first'.Reaches log' sim' → sim'.finished = true → sim'.Allows →
        SameOutcome sim sim' ∧ sim.summary = sim'.summary := by
  have hb := built_of_withPositions hbuilt
  have hu := hb.underway
  have hclear : s.packetLoss ≤ 0.0 := Datum.le_of_beq hloss
  obtain ⟨t, hfits, hfirst⟩ := hb.onSchedule
  have hfirstClear : first.world.network.link.loss ≤ 0.0 := by
    rw [(link_eq_ok hb.link).2.1]
    exact hclear
  refine ⟨t, first.world.network.link, hfits, hb.link, fun i k sender receiver hi hk hne => ?_, ?_,
    fun seed first' sim' k k' log' hbuilt' hrun' hf' hallowed' =>
      Reaches.same_of_seed hbuilt hbuilt' hclear hrun hrun' hf hf' hallowed hallowed'⟩
  · obtain ⟨moves, htravels, -⟩ := hrun.exists_travels
    have hjoins := htravels.joins hu hi hk hne
    rw [← receivedFrom_eq hk]
    exact hrun.exists_card_received hu hfirst hb.startsFirst (hb.conveys hjoins hfirstClear) hf
      hallowed
  · have hnone : first.stats.lost = 0 := by
      rw [stats, hb.network]
      rfl
    obtain ⟨last, ended, refused, hp, hc, rfl⟩ := hrun.exists_closes hu hf hallowed
    have hlast := (hp.lost_eq hfirstClear hnone).2
    obtain ⟨_, _, _, _, heq⟩ := hc.resembles
    rw [heq]
    exact hlast

/-- A whole run of a leader and a follower with another seed. -/
theorem exists_pair_reseeded : ∃ first j' log last,
    withPositions { Settings.pair with seed := 7 } [⟨0.0, 0.0, 0.0⟩, ⟨1.0, 0.0, 0.0⟩]
      (.recorder {}) (Journal.ofThreshold none) = .ok first j' ∧ first.Reaches log last ∧
      last.finished = true ∧ last.Allows :=
  exists_whole_run (Settings.pair_runnable.reseeded 7) (by decide +kernel)

theorem lossless_delivery_pair : ∃ first first' j' k' log log' last last' sender receiver,
    withPositions .pair [⟨0.0, 0.0, 0.0⟩, ⟨1.0, 0.0, 0.0⟩] (.recorder {})
      (Journal.ofThreshold none) = .ok first j' ∧
    withPositions { Settings.pair with seed := 7 } [⟨0.0, 0.0, 0.0⟩, ⟨1.0, 0.0, 0.0⟩]
      (.recorder {}) (Journal.ofThreshold none) = .ok first' k' ∧
    first.Reaches log last ∧ first'.Reaches log' last' ∧ last.finished = true ∧
    last'.finished = true ∧ last.Allows ∧ last'.Allows ∧ last.crafts[0]? = some sender ∧
    last.crafts[1]? = some receiver ∧ receiver.agent.received.get sender.agent.id = 1 ∧
    last.summary = last'.summary := by
  obtain ⟨first, j', moves, last, hbuilt, hrun, hfinished, hrefused, hids⟩ := exists_pair_run
  obtain ⟨first', k', log', last', hbuilt', hrun', hfinished', hallowed'⟩ := exists_pair_reseeded
  have hallowed : last.Allows := fun a _ => by
    rw [hrefused]
    rfl
  obtain ⟨sender, hsender, -⟩ := exists_craft_of_ids (i := 0) (by rw [hids]; rfl)
  obtain ⟨receiver, hreceiver, -⟩ := exists_craft_of_ids (i := 1) (by rw [hids]; rfl)
  obtain ⟨t, link, hfits, hlink, hreceived, -, hseeds⟩ :=
    lossless_delivery hbuilt (by decide +kernel) hrun.reaches hfinished hallowed
  obtain ⟨ks, hks, hcard⟩ := hreceived 0 1 sender receiver hsender hreceiver Nat.zero_ne_one
  obtain ⟨hstop, hstart, -⟩ := Settings.pair_times
  have hstop : t.stop = ⟨1000000000, by decide⟩ := Except.ok.inj (hfits.stop.symm.trans hstop)
  have hstart : t.start = .zero := Except.ok.inj (hfits.start.symm.trans hstart)
  have hpacket : Duration.ofSeconds? Settings.pair.packetInterval = some ⟨1500000000, by decide⟩ := by
    decide +kernel
  have hlatency : Duration.ofSeconds? Settings.pair.linkLatency = some ⟨1000000, by decide⟩ := by
    decide +kernel
  have hperiod : t.agents.packetInterval = ⟨1500000000, by decide⟩ := by
    have hspan := (Settings.periods_of_forAgents hfits.agents).1
    rw [Settings.span, hpacket] at hspan
    exact (Except.ok.inj hspan).symm
  have hdelay : link.latency = ⟨1000000, by decide⟩ := by
    have hspan := (link_eq_ok hlink).1
    rw [Settings.span, hlatency] at hspan
    exact (Except.ok.inj hspan).symm
  have hone : ks = {0} := by
    ext n
    rw [hks, Finset.mem_singleton, Timetable.broadcastAt, hperiod, hdelay, hstop,
      show t.startOf 0 = .zero from rfl, show t.startOf 1 = _ from hstart]
    simp only [Duration.nanos_zero]
    omega
  rw [hone] at hcard
  exact ⟨first, first', j', k', _, log', last, last', sender, receiver, hbuilt, hbuilt',
    hrun.reaches, hrun', hfinished, hfinished', hallowed, hallowed', hsender, hreceiver, hcard,
    (hseeds 7 first' last' _ _ _ hbuilt' hrun' hfinished' hallowed').2⟩

end Simulation

end SwarmFlight
