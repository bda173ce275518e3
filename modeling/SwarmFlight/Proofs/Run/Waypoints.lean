import SwarmFlight.Proofs.Run.Course
import SwarmFlight.Proofs.Track

/-!
# Waypoints in step with the queue

An agent either rests where it was created, or it has taken a step, and then its track ends at
the time at which its next step is due and all other waypoints have passed (`Charted`). The two
times are reckoned apart, one by the integrator and one by the queue, and every event leaves
them equal (`Surveyed.move`).

So at most one waypoint lies ahead of the clock, and a sample leaves two at most. Between two
samples a step adds a waypoint once in its interval, which bounds a track by the ratio of the two
periods, however long the run is (`waypoints_in_step`).
-/

namespace SwarmFlight

namespace Track

variable {t : Track} {now : Instant}

/-- A prune drops waypoints before the last one. -/
theorem earlier_prune_sublist (t : Track) (now : Instant) :
    (t.prune now).earlier.Sublist t.earlier := by
  unfold prune
  split
  · exact List.nil_sublist _
  · show (keepFrom now t.earlier).Sublist t.earlier
    induction t.earlier with
    | nil => exact List.Sublist.refl _
    | cons w rest ih =>
      rw [keepFrom]
      split
      · exact (List.nil_sublist rest).cons_cons w
      · exact ih.cons_cons w

/-- A prune leaves two waypoints at most if all but the last one have passed. -/
theorem size_prune_le (h : ∀ w ∈ t.earlier, w.time ≤ now) : (t.prune now).size ≤ 2 := by
  obtain ⟨latest, earlier⟩ := t
  unfold prune
  split
  · exact Nat.le_succ 1
  · cases earlier with
    | nil => exact Nat.le_succ 1
    | cons w rest =>
      show (latest :: keepFrom now (w :: rest)).length ≤ 2
      rw [keepFrom, if_pos (h w List.mem_cons_self)]
      exact Nat.le_refl 2

/-- At most one waypoint lies ahead if all but the last one have passed. -/
theorem length_ahead_le (h : ∀ w ∈ t.earlier, w.time ≤ now) :
    (t.waypoints.filter (now < ·.time)).length ≤ 1 := by
  have hnone : t.earlier.filter (now < ·.time) = [] :=
    List.filter_eq_nil_iff.2 fun w hw => by simpa using Duration.not_lt.2 (h w hw)
  rw [waypoints, List.filter_cons, hnone]
  split
  · exact Nat.le_refl 1
  · exact Nat.zero_le 1

end Track

namespace Simulation

open Run

variable {first sim sim₁ sim' : Simulation} {log : List Occurrence} {e : Entry Event}
  {q : EventQueue Event} {r : Except Failure Bool} {event : Event} {i j : Nat} {c c' : Craft}
  {next : Instant} {log' : List Occurrence}

/-! ## Effects -/

/-- What an event does to the track of an agent : its step lengthens it, a sample prunes it, and
everything else leaves it as it is. -/
theorem Effect.track (h : sim.Effect event sim₁) :
    ∀ (j : Nat) (c' : Craft), sim₁.crafts[j]? = some c' → ∃ c, sim.crafts[j]? = some c ∧
      c'.agent.settings = c.agent.settings ∧
      (event ≠ .duty j .compute ∧ event ≠ .sample ∧ c'.track = c.track ∨
        event = .duty j .compute ∧ c'.track.earlier = c.track.waypoints ∧
          c'.track.latest.time = sim.world.clock.later c.agent.settings.calculateInterval ∨
        event = .sample ∧ c'.track = c.track.prune sim.world.clock) := by
  cases h with
  | starts craft =>
    exact forall_played ⟨_, craft, rfl, .inl ⟨nofun, nofun, rfl⟩⟩
      fun j c _ hc => ⟨c, hc, rfl, .inl ⟨nofun, nofun, rfl⟩⟩
  | broadcasts craft =>
    exact forall_played ⟨_, craft, rfl, .inl ⟨nofun, nofun, rfl⟩⟩
      fun j c _ hc => ⟨c, hc, rfl, .inl ⟨nofun, nofun, rfl⟩⟩
  | @computes i c step craft _ advance =>
    have htime : sim.world.clock.add? c.agent.settings.calculateInterval =
        some step.waypoint.time := Integrator.waypoint_time advance
    refine forall_played ⟨c, craft, rfl, .inr (.inl ⟨rfl, rfl, (Duration.later_eq htime).symm⟩)⟩
      fun j c hj hc => ⟨c, hc, rfl, .inl ⟨fun heq => hj ?_, nofun, rfl⟩⟩
    exact (Event.duty.inj heq).1.symm
  | turns craft =>
    exact forall_played ⟨_, craft, rfl, .inl ⟨nofun, nofun, rfl⟩⟩
      fun j c _ hc => ⟨c, hc, rfl, .inl ⟨nofun, nofun, rfl⟩⟩
  | hears craft =>
    exact forall_played ⟨_, craft, rfl, .inl ⟨nofun, nofun, rfl⟩⟩
      fun j c _ hc => ⟨c, hc, rfl, .inl ⟨nofun, nofun, rfl⟩⟩
  | misses => exact fun j c hc => ⟨c, hc, rfl, .inl ⟨nofun, nofun, rfl⟩⟩
  | samples =>
    intro j c' hc'
    obtain ⟨c, hc, rfl⟩ := Option.map_eq_some_iff.1 (List.getElem?_map.symm.trans hc')
    exact ⟨c, hc, rfl, .inr (.inr ⟨rfl, rfl⟩)⟩

/-- An event takes place when it is due, and leaves the period of the samples as it is. -/
theorem Effect.times (effect : (sim.withQueue q).Effect e.event sim₁) (hu : sim.Underway)
    (takes : sim.world.queue.Takes e q) : sim₁.flushed.world.clock = e.due ∧
      sim.world.clock ≤ e.due ∧ sim₁.flushed.samplePeriod = sim.samplePeriod := by
  obtain ⟨_, hleads⟩ := effect.leads
  have hclock := effect.clock_eq takes
  exact ⟨(clock_flushed _).trans hclock, hclock ▸ effect.clock_le hu takes, hleads.samplePeriod⟩

theorem exists_of_dues_eq {t : Instant} (h : sim.dues event = [t]) :
    ∃ x ∈ sim.world.queue.live, x.event = event ∧ x.due = t :=
  EventQueue.mem_dues.1 (h ▸ List.mem_singleton_self t : t ∈ sim.dues event)

/-- A duty is pending once at most. -/
theorem Books.dues_eq {q : EventQueue Event} {slots : Slots} {duty : Duty} (h : Books q i slots)
    (he : e ∈ q.live) (hevent : e.event = .duty i duty) : q.dues (.duty i duty) = [e.due] := by
  have hmem : e ∈ q.awaited fun x => x = .duty i duty :=
    EventQueue.mem_awaited.2 ⟨he, decide_eq_true hevent⟩
  have hone := h duty
  rw [h.get_eq he hevent, EventQueue.numbers, Option.toList_some] at hone
  obtain ⟨x, hx, -⟩ := List.map_eq_singleton_iff.1 hone
  rw [hx, List.mem_singleton] at hmem
  rw [EventQueue.dues_eq, hx, hmem]
  rfl

/-! ## Charts -/

/-- How the track of an agent lies in time, if the positions are to be sampled at `next` : the agent
has not moved yet, or its track ends when its next step is due, and the rest of it has passed. -/
inductive Charted (log : List Occurrence) (sim : Simulation) (next : Instant) (i : Nat)
    (c : Craft) : Prop
  | rests (never : ∀ o ∈ log, o.event ≠ .duty i .compute) (origin : c.track.latest.time = .zero)
      (alone : c.track.earlier = [])
  | moves (pending : sim.dues (.duty i .compute) = [c.track.latest.time])
      (ordered : c.track.Ordered) (passed : ∀ w ∈ c.track.earlier, w.time ≤ sim.world.clock)
      (near : c.track.latest.time.nanos ≤
        sim.world.clock.nanos + c.agent.settings.calculateInterval.nanos)
      -- the waypoints since the last sample are one interval apart
      (sparse : c.track.size * c.agent.settings.calculateInterval.nanos + next.nanos ≤
        c.track.latest.time.nanos + sim.samplePeriod.nanos +
          2 * c.agent.settings.calculateInterval.nanos)

namespace Charted

theorem ordered (h : Charted log sim next i c) : c.track.Ordered := by
  cases h with
  | rests _ _ alone =>
    rw [Track.Ordered, Track.waypoints, alone]
    exact List.pairwise_singleton _ _
  | moves _ ordered => exact ordered

theorem passed (h : Charted log sim next i c) : ∀ w ∈ c.track.earlier,
    w.time ≤ sim.world.clock := by
  cases h with
  | rests _ _ alone =>
    rw [alone]
    exact nofun
  | moves _ _ passed => exact passed

/-- A track has as many waypoints as there are steps from one sample to the next, and three more. -/
theorem size_mul_le (h : Charted log sim next i c) (hnext : sim.world.clock ≤ next) :
    c.track.size * c.agent.settings.calculateInterval.nanos ≤
      sim.samplePeriod.nanos + 3 * c.agent.settings.calculateInterval.nanos := by
  rw [Duration.le_def] at hnext
  cases h with
  | rests _ _ alone =>
    rw [Track.size, Track.waypoints, alone, List.length_singleton]
    omega
  | moves _ _ _ near sparse => omega

/-- What leaves a track and its next step as they are. -/
theorem frame (h : Charted log sim next i c) {o : Occurrence} (htrack : c'.track = c.track)
    (hsettings : c'.agent.settings = c.agent.settings) (ho : o.event ≠ .duty i .compute)
    (hdues : sim.dues (.duty i .compute) ≠ [] →
      (sim'.dues (.duty i .compute)).Perm (sim.dues (.duty i .compute)))
    (hclock : sim.world.clock ≤ sim'.world.clock) (hperiod : sim'.samplePeriod = sim.samplePeriod) :
    Charted (log ++ [o]) sim' next i c' := by
  cases h with
  | rests never origin alone =>
    refine .rests (fun x hx => ?_) (htrack ▸ origin) (htrack ▸ alone)
    rcases List.mem_append.1 hx with hx | hx
    · exact never x hx
    · rw [List.mem_singleton.1 hx]
      exact ho
  | moves pending ordered passed near sparse =>
    have hsame := hdues (by rw [pending]; exact nofun)
    rw [pending, List.perm_singleton] at hsame
    refine .moves (htrack ▸ hsame) (htrack ▸ ordered) (fun w hw => ?_) ?_ ?_
    · exact Nat.le_trans (passed w (htrack ▸ hw)) hclock
    · rw [htrack, hsettings]
      exact near.trans (Nat.add_le_add_right hclock _)
    · rw [htrack, hsettings, hperiod]
      exact sparse

end Charted

/-! ## Samples to come -/

/-- The positions are sampled next at a time that is at most one period ahead. -/
structure Expects (sim : Simulation) (next : Instant) : Prop where
  pending : sim.dues .sample = [next]
  soon : next.nanos ≤ sim.world.clock.nanos + sim.samplePeriod.nanos

/-- An event that schedules itself again is pending once again. -/
theorem Effect.dues_again {t d : Instant} (effect : (sim.withQueue q).Effect e.event sim₁)
    (takes : sim.world.queue.Takes e q) (hnot : ∀ d, e.event ≠ .arrival d)
    (hdues : sim.dues e.event = [d]) (hle : e.due ≤ t)
    (hscheduled : ((sim.withQueue q).successors e.event).filter (·.2 = e.event) =
      [(t, e.event)]) : sim₁.flushed.dues e.event = [t] := by
  obtain ⟨-, hnone⟩ := dues_of_takes takes hdues
  have hafter := effect.dues takes hnot
  rwa [hscheduled, hnone, List.map_singleton, Duration.max_eq_left hle, List.append_nil,
    List.perm_singleton] at hafter

theorem Expects.clock_le (h : sim.Expects next) (hq : sim.world.queue.WellFormed) :
    sim.world.clock ≤ next := by
  obtain ⟨x, hx, -, rfl⟩ := exists_of_dues_eq h.pending
  exact hq.ahead x (EventQueue.mem_live.1 hx).1

/-- The next sample is due one period after the last one. -/
theorem Expects.of_effect (h : sim.Expects next) (hu : sim.Underway)
    (takes : sim.world.queue.Takes e q) (effect : (sim.withQueue q).Effect e.event sim₁) :
    ∃ next', sim₁.flushed.Expects next' ∧ (e.event ≠ .sample → next' = next) ∧
      (e.event = .sample → next'.nanos = e.due.nanos + sim.samplePeriod.nanos) := by
  obtain ⟨hclock, hle, hperiod⟩ := effect.times hu takes
  by_cases hevent : e.event = .sample
  · obtain ⟨t, ht, hscheduled⟩ : ∃ t : Instant,
        t.nanos = e.due.nanos + sim.samplePeriod.nanos ∧
        ((sim.withQueue q).successors e.event).filter (·.2 = e.event) = [(t, e.event)] := by
      rw [hevent] at effect ⊢
      obtain ⟨t, ht, hscheduled⟩ := effect.sample_again
      rw [show (sim.withQueue q).world.clock = e.due from takes.clock] at ht
      exact ⟨t, ht, hscheduled⟩
    have hlet : e.due ≤ t := by
      rw [Duration.le_def, ht]
      exact Nat.le_add_right _ _
    have hnot : ∀ d, e.event ≠ .arrival d := by
      rw [hevent]
      exact nofun
    have hdues := effect.dues_again takes hnot (hevent ▸ h.pending) hlet hscheduled
    refine ⟨t, ⟨hevent ▸ hdues, ?_⟩, fun hne => absurd hevent hne, fun _ => ht⟩
    rw [hclock, hperiod, ht]
  · have hdues : (sim₁.flushed.dues .sample).Perm (sim.dues .sample) := by
      refine effect.dues_of_ne takes nofun hevent fun x hx hsample => ?_
      rcases cases_of_mem_successors hx with ⟨-, heq⟩ | ⟨_, _, hduty, -⟩
      · exact hevent heq
      · exact nomatch hsample.symm.trans hduty
    rw [h.pending, List.perm_singleton] at hdues
    refine ⟨next, ⟨hdues, ?_⟩, fun _ => rfl, fun heq => absurd heq hevent⟩
    rw [hclock, hperiod]
    exact h.soon.trans (Nat.add_le_add_right hle _)

/-! ## One event -/

namespace Charted

/-- An agent with a step pending has started. -/
theorem dues_of_ne (hu : sim.Underway) (hc : sim.crafts[i]? = some c)
    (takes : sim.world.queue.Takes e q) (effect : (sim.withQueue q).Effect e.event sim₁)
    (hne : e.event ≠ .duty i .compute) (hsome : sim.dues (.duty i .compute) ≠ []) :
    (sim₁.flushed.dues (.duty i .compute)).Perm (sim.dues (.duty i .compute)) := by
  refine effect.dues_of_ne takes nofun hne fun x hx hduty => ?_
  rcases duty_of_mem_successors hx hduty with hstart | ⟨heq, -⟩
  · obtain ⟨d, hd⟩ := List.exists_mem_of_ne_nil _ hsome
    obtain ⟨y, hy, hevent, -⟩ := EventQueue.mem_dues.1 hd
    obtain ⟨hfresh, -⟩ := (hu.stationed i c hc).of_start takes.mem hstart
    exact nomatch hfresh.symm.trans ((hu.stationed i c hc).of_duty hy hevent).1
  · exact hne heq

/-- A step adds a waypoint at the time at which the next step is due. -/
theorem of_step (h : Charted log sim next i c) (hu : sim.Underway)
    (hc : sim.crafts[i]? = some c) (hnext : sim.Expects next)
    (takes : sim.world.queue.Takes e q) (effect : (sim.withQueue q).Effect e.event sim₁)
    (hevent : e.event = .duty i .compute) (hsettings : c'.agent.settings = c.agent.settings)
    (hearlier : c'.track.earlier = c.track.waypoints)
    (hlatest : c'.track.latest.time = e.due.later c.agent.settings.calculateInterval) :
    Charted log' sim₁.flushed next i c' := by
  obtain ⟨hclock, hle, hperiod⟩ := effect.times hu takes
  have hdue := (hu.stationed i c hc).books.dues_eq takes.mem hevent
  obtain ⟨t, ht, hscheduled⟩ : ∃ t : Instant,
      t.nanos = e.due.nanos + c.agent.settings.calculateInterval.nanos ∧
      ((sim.withQueue q).successors e.event).filter (·.2 = e.event) = [(t, e.event)] := by
    rw [hevent] at effect ⊢
    have hc₀ : (sim.withQueue q).crafts[i]? = some c := hc
    obtain ⟨t, ht, hscheduled⟩ := effect.duty_again (by decide) hc₀
    rw [show (sim.withQueue q).world.clock = e.due from takes.clock] at ht
    exact ⟨t, ht, hscheduled⟩
  rw [Duration.later_eq (Duration.add?_eq_some_iff.2 ht)] at hlatest
  -- all that was there has passed when the step is due
  have hpassed : ∀ w ∈ c.track.waypoints, w.time ≤ e.due := by
    intro w hw
    rcases List.mem_cons.1 hw with rfl | hw
    · exact hu.behind i c hc e takes.mem (.inr hevent)
    · exact Nat.le_trans (h.passed w hw) hle
  have hsparse : c.track.size * c.agent.settings.calculateInterval.nanos + next.nanos ≤
      e.due.nanos + sim.samplePeriod.nanos +
        2 * c.agent.settings.calculateInterval.nanos := by
    have hsoon := hnext.soon
    rw [Duration.le_def] at hle
    cases h with
    | rests _ _ alone =>
      rw [Track.size, Track.waypoints, alone, List.length_singleton]
      omega
    | moves pending _ _ _ sparse =>
      rw [(List.cons_eq_cons.1 (pending.symm.trans hdue)).1] at sparse
      exact sparse
  have hsize : c'.track.size = c.track.size + 1 := by
    rw [Track.size, Track.waypoints, List.length_cons, hearlier]
    rfl
  have hlet : e.due ≤ t := by
    rw [Duration.le_def, ht]
    exact Nat.le_add_right _ _
  have hdues := effect.dues_again takes (by simp [hevent]) (hevent ▸ hdue) hlet
    hscheduled
  refine .moves (hlatest ▸ hevent ▸ hdues) ?_ ?_ ?_ ?_
  · rw [Track.Ordered, Track.waypoints, hearlier, List.pairwise_cons]
    refine ⟨fun w hw => ?_, h.ordered⟩
    rw [hlatest]
    exact Nat.le_trans (hpassed w hw) hlet
  · rw [hearlier, hclock]
    exact hpassed
  · rw [hlatest, hsettings, hclock, ht]
  · rw [hsize, hlatest, hsettings, hperiod, ht, Nat.succ_mul]
    omega

/-- A sample leaves two waypoints at most. -/
theorem of_sample (h : Charted log sim next i c) (hu : sim.Underway)
    (hc : sim.crafts[i]? = some c) (takes : sim.world.queue.Takes e q)
    (effect : (sim.withQueue q).Effect e.event sim₁) (hevent : e.event = .sample)
    (hsettings : c'.agent.settings = c.agent.settings) (htrack : c'.track = c.track.prune e.due)
    {next' : Instant} (hnext' : next'.nanos = e.due.nanos + sim.samplePeriod.nanos)
    {o : Occurrence} (ho : o.event = e.event) :
    Charted (log ++ [o]) sim₁.flushed next' i c' := by
  obtain ⟨hclock, hle, hperiod⟩ := effect.times hu takes
  have hne : e.event ≠ .duty i .compute := by
    rw [hevent]
    exact nofun
  have hsub : c'.track.earlier.Sublist c.track.earlier := by
    rw [htrack]
    exact Track.earlier_prune_sublist _ _
  have hlatest : c'.track.latest = c.track.latest := by
    rw [htrack]
    exact Track.latest_prune _ _
  have hsize : c'.track.size ≤ 2 := by
    rw [htrack]
    exact Track.size_prune_le fun w hw => Nat.le_trans (h.passed w hw) hle
  cases h with
  | rests never origin alone =>
    refine .rests (fun x hx => ?_) (hlatest ▸ origin) (List.sublist_nil.1 (alone ▸ hsub))
    rcases List.mem_append.1 hx with hx | hx
    · exact never x hx
    · rw [List.mem_singleton.1 hx, ho]
      exact hne
  | moves pending ordered passed near sparse =>
    have hdues := dues_of_ne hu hc takes effect hne (by rw [pending]; exact nofun)
    rw [pending, List.perm_singleton] at hdues
    obtain ⟨x, hx, -, hdue⟩ := exists_of_dues_eq pending
    have hlate : e.due ≤ c.track.latest.time := hdue ▸ Entry.due_le_of_before (takes.first x hx)
    have htwo := Nat.mul_le_mul_right c.agent.settings.calculateInterval.nanos hsize
    rw [Duration.le_def] at hle hlate
    refine .moves (hlatest ▸ hdues) (htrack ▸ ordered.prune _) (fun w hw => ?_) ?_ ?_
    · exact Nat.le_trans (passed w (hsub.subset hw)) (hclock ▸ hle)
    · rw [hlatest, hsettings, hclock]
      omega
    · rw [hlatest, hsettings, hperiod, hnext']
      omega

end Charted

/-! ## A whole run -/

/-- The tracks of all agents lie as they should, and have just been pruned after a sample. -/
structure Surveyed (log : List Occurrence) (sim : Simulation) : Prop where
  charts : ∃ next, sim.Expects next ∧
    ∀ (i : Nat) (c : Craft), sim.crafts[i]? = some c → Charted log sim next i c
  pruned : log.getLast?.map (·.event) = some .sample →
    ∀ (i : Nat) (c : Craft), sim.crafts[i]? = some c → c.track.size ≤ 2

theorem Surveyed.refuse (h : Surveyed log sim) (a : Address) : Surveyed log (sim.refuse a) := by
  obtain ⟨refused, heq⟩ := sim.refuse_eq a
  rw [heq]
  obtain ⟨next, hnext, hcharts⟩ := h.charts
  refine ⟨⟨next, ⟨hnext.pending, hnext.soon⟩, fun i c hc => ?_⟩, h.pruned⟩
  cases hcharts i c hc with
  | rests never origin alone => exact .rests never origin alone
  | moves pending ordered passed near sparse => exact .moves pending ordered passed near sparse

theorem Surveyed.move (h : Surveyed log sim) (hu : sim.Underway) (hm : sim.Moves e r sim') :
    Surveyed (log ++ [sim.occurrence e r]) sim' := by
  obtain ⟨next, hnext, hcharts⟩ := h.charts
  cases hm with
  | @refused q i c popped takes early hstart =>
    have hle : sim.world.clock ≤ q.clock := by
      rw [takes.clock]
      exact hu.sound.queue.ahead e (EventQueue.mem_live.1 takes.mem).1
    have hne : ∀ event, (∀ j, event ≠ .start j) → e.event ≠ event := by
      rintro event hnot rfl
      exact hnot i hstart
    refine ⟨⟨next, ⟨?_, ?_⟩, fun j c hc => ?_⟩, fun hlast => ?_⟩
    · have hdues : (sim.dues .sample).Perm (q.dues .sample) := takes.dues_of_ne (hne _ nofun)
      rw [hnext.pending, List.singleton_perm] at hdues
      exact hdues.symm
    · exact hnext.soon.trans (Nat.add_le_add_right hle _)
    · have hduty : e.event ≠ .duty j .compute := hne _ nofun
      exact (hcharts j c hc).frame rfl rfl hduty
        (fun _ => (takes.dues_of_ne hduty).symm) hle rfl
    · rw [List.getLast?_concat, Option.map_some] at hlast
      exact absurd (Option.some.inj hlast) (hne _ nofun)
  | @went q sim₁ popped takes early effect =>
    have hclock : (sim.withQueue q).world.clock = e.due := takes.clock
    obtain ⟨hnow, hle, hperiod⟩ := effect.times hu takes
    obtain ⟨next', hnext', hsame, hagain⟩ := hnext.of_effect hu takes effect
    refine ⟨⟨next', hnext', fun j c' hc' => ?_⟩, fun hlast j c' hc' => ?_⟩
    · obtain ⟨c, hc, hsettings, htrack⟩ := effect.track j c' hc'
      have hchart := hcharts j c hc
      rcases htrack with ⟨hne, hnot, htrack⟩ | ⟨hevent, hearlier, hlatest⟩ | ⟨hevent, htrack⟩
      · rw [hsame hnot]
        refine hchart.frame htrack hsettings hne
          (Charted.dues_of_ne hu hc takes effect hne) ?_ hperiod
        rwa [hnow]
      · rw [hsame (by rw [hevent]; exact nofun)]
        rw [hclock] at hlatest
        exact hchart.of_step hu hc hnext takes effect hevent hsettings hearlier hlatest
      · rw [hclock] at htrack
        exact hchart.of_sample hu hc takes effect hevent hsettings htrack (hagain hevent) rfl
    · rw [List.getLast?_concat, Option.map_some] at hlast
      obtain ⟨c, hc, -, htrack⟩ := effect.track j c' hc'
      rcases htrack with ⟨-, hnot, -⟩ | ⟨hevent, -⟩ | ⟨-, htrack⟩
      · exact absurd (Option.some.inj hlast) hnot
      · exact nomatch hevent.symm.trans (Option.some.inj hlast)
      · rw [htrack, hclock]
        exact Track.size_prune_le fun w hw => Nat.le_trans ((hcharts j c hc).passed w hw) hle

theorem Built.surveyed {s : Settings} (h : sim.Built s) : Surveyed [] sim := by
  obtain ⟨t, -, hschedule⟩ := h.onSchedule
  obtain ⟨next, hpending, hzero⟩ := hschedule.sample.next
  obtain ⟨shared, -, hcrafts⟩ := h.crafts
  refine ⟨⟨next, ⟨hpending, ?_⟩, fun i c hc => ?_⟩,
    fun hlast => by cases hlast⟩
  · rw [hzero, show (timesOf [] Event.sample).length = 0 from rfl, Nat.zero_mul]
    exact Nat.zero_le _
  · obtain ⟨id, position, rfl⟩ := hcrafts i c hc
    exact .rests nofun rfl rfl

/-- In every state of a run that goes on, the waypoints of each agent are in order of time and at
most one of them lies ahead of the clock. An agent that has taken a step runs and has one step
pending, which is due when its track ends. A sample leaves two waypoints at most. And if steps
take any time, a track never has more waypoints than there are steps from one sample to the next,
and three. -/
theorem waypoints_in_step {s : Settings} {positions : List Vec3} {telemetry : Telemetry}
    {j j' : Journal} (hbuilt : withPositions s positions telemetry j = .ok first j')
    (hrun : first.Reaches log sim) (hf : sim.finished = false)
    (hc : sim.crafts[i]? = some c) :
    c.track.waypoints.Pairwise (fun later earlier => earlier.time ≤ later.time) ∧
      (c.track.waypoints.filter (sim.now < ·.time)).length ≤ 1 ∧
      ((∃ o ∈ log, o.event = .duty i .compute) → c.agent.stage = .running ∧
        sim.dues (.duty i .compute) = [c.track.latest.time]) ∧
      (log.getLast?.map (·.event) = some .sample → c.track.size ≤ 2) ∧
      (c.agent.settings.calculateInterval ≠ .zero → c.track.size ≤
        sim.samplePeriod.nanos / c.agent.settings.calculateInterval.nanos + 3) := by
  have hb := built_of_withPositions hbuilt
  obtain ⟨hu, hsurveyed⟩ := hrun.underway_induction (P := Surveyed) hb.underway hf hb.surveyed
    (fun _ _ a _ h => h.refuse a) fun _ _ _ _ _ hu hm _ h => h.move hu hm
  obtain ⟨next, hnext, hcharts⟩ := hsurveyed.charts
  have hchart := hcharts i c hc
  have hnow : sim.now = sim.world.clock := if_neg (Bool.eq_false_iff.1 hf)
  refine ⟨hchart.ordered, ?_, fun hstepped => ?_, fun hlast => hsurveyed.pruned hlast i c hc,
    fun hinterval => ?_⟩
  · rw [hnow]
    exact Track.length_ahead_le hchart.passed
  · cases hchart with
    | rests never =>
      obtain ⟨o, ho, hevent⟩ := hstepped
      exact absurd hevent (never o ho)
    | moves pending =>
      obtain ⟨x, hx, hevent, -⟩ := exists_of_dues_eq pending
      exact ⟨((hu.stationed i c hc).of_duty hx hevent).1, pending⟩
  · have hpos : 0 < c.agent.settings.calculateInterval.nanos :=
      Nat.pos_of_ne_zero fun hzero => hinterval (Duration.ext hzero)
    have hsize := hchart.size_mul_le (hnext.clock_le hu.sound.queue)
    rw [← Nat.add_mul_div_right _ _ hpos, Nat.le_div_iff_mul_le hpos]
    exact hsize

/-- A run that is over went on until its last step. -/
theorem Reaches.exists_last (h : first.Reaches log sim) (hu : first.Underway)
    (hf : sim.finished = true) : ∃ last, first.Reaches log last ∧ last.finished = false := by
  induction h with
  | first => exact nomatch hu.unfinished.symm.trans hf
  | refuse a h ih => exact ih ((refuse_finished _ a).symm.trans hf)
  | @step log sim sim' r h step ih =>
    cases hover : sim.finished with
    | true =>
      have hidle : sim.occurrences r = [] := if_pos hover
      rw [hidle, List.append_nil]
      exact ih hover
    | false =>
      rcases (h.underway hu hover).step step with ⟨e, -, hsim'⟩ | ⟨rfl, hcloses⟩
      · exact nomatch hsim'.unfinished.symm.trans hf
      · rw [hcloses.occurrences, List.append_nil]
        exact ⟨sim, h, hover⟩

theorem waypoints_in_step_pair : ∃ first j' log last leader,
    withPositions .pair [⟨0.0, 0.0, 0.0⟩, ⟨1.0, 0.0, 0.0⟩] (.recorder {})
      (Journal.ofThreshold none) = .ok first j' ∧ first.Reaches log last ∧
      last.finished = false ∧ last.crafts[0]? = some leader ∧
      (leader.track.waypoints.filter (last.now < ·.time)).length ≤ 1 ∧
      leader.agent.stage = .running ∧
      last.dues (.duty 0 .compute) = [leader.track.latest.time] := by
  obtain ⟨first, j', moves, ended, hbuilt, hrun, hfinished, hrefused, hids⟩ := exists_pair_run
  have hb := built_of_withPositions hbuilt
  have hu := hb.underway
  have hallowed : ended.Allows := fun a _ => by
    rw [hrefused]
    rfl
  obtain ⟨last, hlast, hf⟩ := hrun.reaches.exists_last hu hfinished
  obtain ⟨_, htravels, -⟩ := hlast.exists_travels
  rw [ids_eq_of_roster ((hrun.roster_eq hu).trans (htravels.roster_eq hu).symm)] at hids
  obtain ⟨leader, hleader, -⟩ := exists_craft_of_ids (i := 0) (by rw [hids]; rfl)
  -- the leader takes its first step at the start of time
  obtain ⟨t, hfits, hschedule⟩ := hb.onSchedule
  have hstop : Duration.zero < t.stop := by
    rw [Except.ok.inj (hfits.stop.symm.trans Settings.pair_times.1)]
    decide
  have hone : 0 < ended.crafts.length := by
    have hroster := (htravels.roster_eq hu).trans (hrun.roster_eq hu).symm
    rw [← length_eq_of_roster hroster]
    exact (List.getElem?_eq_some_iff.1 hleader).1
  have hsteps := (hrun.reaches.kept hu hschedule hfinished hallowed).duties 0 hone .compute nofun
  have hcount := (hsteps.2 0).2 (by rwa [Nat.zero_mul, Nat.add_zero])
  rw [timesOf, List.length_map] at hcount
  obtain ⟨o, ho⟩ := List.exists_mem_of_length_pos hcount
  have hstepped : ∃ o ∈ moves.flatMap Move.occurrences, o.event = .duty 0 .compute :=
    ⟨o, (List.mem_filter.1 ho).1, of_decide_eq_true (List.mem_filter.1 ho).2⟩
  obtain ⟨-, hahead, hnext, -⟩ := waypoints_in_step hbuilt hlast hf hleader
  obtain ⟨hrunning, hdues⟩ := hnext hstepped
  exact ⟨first, j', _, last, leader, hbuilt, hlast, hf, hleader, hahead, hrunning, hdues⟩

end Simulation

end SwarmFlight
