import SwarmFlight.Proofs.Run.Trail

/-!
# The timetable of a run

An event that schedules itself again after a period is `Ticking` : it was dispatched at the
first ticks of its period, and it is pending at the next one. In a run in which no address is
refused the duties of an agent tick from its start on (`Timely`), and the samples from the
beginning on. What is pending when the run is over lies after the stop time, so each of them
has taken place at just those ticks that lie before it (`Periodic`).
-/

namespace SwarmFlight

/-- The times at which an event was dispatched, in nanoseconds. -/
def timesOf (log : List Occurrence) (event : Event) : List Nat :=
  (log.filter (·.event = event)).map (·.time.nanos)

/-- The first `n` ticks of a period. -/
def ticks (start period n : Nat) : List Nat := (List.range n).map fun k => start + k * period

/-- Times that are the ticks of a period, just those before the stop time. -/
def Periodic (start period stop : Nat) (times : List Nat) : Prop :=
  times = ticks start period times.length ∧ ∀ k, k < times.length ↔ start + k * period < stop

/-- The times of a run, as its settings have them. -/
structure Timetable where
  /-- When the followers start. -/
  start : Instant
  stop : Instant
  /-- The period of the samples. -/
  period : Duration
  agents : AgentSettings

namespace Timetable

/-- The times that some settings say. -/
structure Fits (t : Timetable) (s : Settings) : Prop where
  start : s.followerStart = .ok t.start
  stop : s.stopTime = .ok t.stop
  period : s.samplePeriod = .ok t.period
  agents : s.forAgents = .ok t.agents

/-- When the agent of an index is to start : the leader at once, and the followers later. -/
def startOf (t : Timetable) (i : Nat) : Instant := if i = 0 then .zero else t.start

/-- A run of some agents has taken place as the timetable says. -/
structure Kept (t : Timetable) (agents : Nat) (log : List Occurrence) : Prop where
  starts : ∀ i < agents, (timesOf log (.start i)).length = if t.startOf i < t.stop then 1 else 0
  duties : ∀ i < agents, ∀ duty, duty ≠ .compromise →
    Periodic (t.startOf i).nanos (Act.interval t.agents duty).nanos t.stop.nanos
      (timesOf log (.duty i duty))
  sample : Periodic 0 t.period.nanos t.stop.nanos (timesOf log .sample)

end Timetable

section Times

variable {log : List Occurrence} {o : Occurrence} {event : Event} {start period n : Nat}

theorem timesOf_concat_self (h : o.event = event) :
    timesOf (log ++ [o]) event = timesOf log event ++ [o.time.nanos] := by
  simp [timesOf, h]

theorem timesOf_concat_of_ne (h : o.event ≠ event) :
    timesOf (log ++ [o]) event = timesOf log event := by
  simp [timesOf, h]

theorem ticks_succ : ticks start period (n + 1) = ticks start period n ++ [start + n * period] := by
  simp [ticks, List.range_succ]

theorem length_ticks : (ticks start period n).length = n := by
  simp [ticks]

/-- The ticks that have come before the stop time are all of those before it if the next one is
not. -/
theorem periodic_ticks {stop : Nat} (hearly : ∀ t ∈ ticks start period n, t < stop)
    (hlate : stop ≤ start + n * period) : Periodic start period stop (ticks start period n) := by
  unfold Periodic
  rw [length_ticks]
  refine ⟨rfl, fun k => ⟨fun hk => ?_, fun hk => ?_⟩⟩
  · exact hearly _ (List.mem_map_of_mem (List.mem_range.2 hk))
  · refine Nat.lt_of_not_le fun hle => ?_
    have hmore := Nat.mul_le_mul_right period hle
    omega

end Times

namespace Simulation

open Run

variable {first sim sim₁ sim' : Simulation} {log : List Occurrence} {e : Entry Event}
  {q : EventQueue Event} {r : Except Failure Bool} {event : Event} {i : Nat} {c : Craft}

/-! ## When an event comes again -/

/-- An event that ticks. -/
structure Ticking (start period : Nat) (event : Event) (log : List Occurrence)
    (sim : Simulation) : Prop where
  times : timesOf log event = ticks start period (timesOf log event).length
  next : ∃ t, sim.dues event = [t] ∧ t.nanos = start + (timesOf log event).length * period

/-- What is pending after an event that has its effect : what the event has scheduled, and what was
pending before. -/
theorem Effect.dues (effect : (sim.withQueue q).Effect e.event sim₁)
    (takes : sim.world.queue.Takes e q) (hnot : ∀ d, event ≠ .arrival d) :
    (sim₁.flushed.dues event).Perm
      ((((sim.withQueue q).successors e.event).filter (·.2 = event)).map (·.1.max e.due) ++
        q.dues event) := by
  obtain ⟨_, hleads⟩ := effect.leads
  have hq : (sim.withQueue q).world.queue.WellFormed := takes.wellFormed
  have hscheduled := hq.dues_scheduleAll ((sim.withQueue q).successors e.event) event
  rw [← hleads.queue, show (sim.withQueue q).world.queue.clock = e.due from takes.clock]
    at hscheduled
  exact (dues_flushed (effect.wellFormed hq) hnot).trans hscheduled

/-- What is dispatched was pending. -/
theorem mem_dues_of_takes (takes : sim.world.queue.Takes e q) : e.due ∈ sim.dues e.event :=
  EventQueue.mem_dues.2 ⟨e, takes.mem, rfl, rfl⟩

theorem event_ne_of_dues_eq_nil (takes : sim.world.queue.Takes e q) (h : sim.dues event = []) :
    e.event ≠ event := by
  rintro rfl
  exact absurd (h ▸ mem_dues_of_takes takes) List.not_mem_nil

/-- An event that was pending once is no longer pending when it is dispatched. -/
theorem dues_of_takes {t : Instant} (takes : sim.world.queue.Takes e q)
    (hdues : sim.dues e.event = [t]) : e.due = t ∧ q.dues e.event = [] := by
  have hleft := takes.dues_self
  rw [show sim.world.queue.dues e.event = [t] from hdues, List.singleton_perm] at hleft
  obtain ⟨hdue, hnone⟩ := List.cons_eq_cons.1 hleft
  exact ⟨hdue.symm, hnone.symm⟩

/-- Other events leave an event pending as it was. -/
theorem Effect.dues_of_ne (effect : (sim.withQueue q).Effect e.event sim₁)
    (takes : sim.world.queue.Takes e q) (hnot : ∀ d, event ≠ .arrival d) (hne : e.event ≠ event)
    (hnew : ∀ x ∈ (sim.withQueue q).successors e.event, x.2 ≠ event) :
    (sim₁.flushed.dues event).Perm (sim.dues event) := by
  have hdues := effect.dues takes hnot
  rw [List.filter_eq_nil_iff.2 fun x hx => by simpa using hnew x hx, List.map_nil,
    List.nil_append] at hdues
  exact hdues.trans (takes.dues_of_ne hne).symm

variable {start period : Nat}

/-- An event that schedules itself again after its period, and that nothing else schedules, goes on
ticking. -/
theorem Ticking.of_effect (h : Ticking start period event log sim)
    (takes : sim.world.queue.Takes e q) (effect : (sim.withQueue q).Effect e.event sim₁)
    (hnot : ∀ d, event ≠ .arrival d)
    (hother : e.event ≠ event → ∀ x ∈ (sim.withQueue q).successors e.event, x.2 ≠ event)
    (hagain : e.event = event → ∃ t : Instant, t.nanos = e.due.nanos + period ∧
      ((sim.withQueue q).successors e.event).filter (·.2 = event) = [(t, event)]) :
    Ticking start period event (log ++ [sim.occurrence e r]) sim₁.flushed := by
  obtain ⟨t, hdues, hnext⟩ := h.next
  by_cases hevent : e.event = event
  · obtain ⟨t', ht', hscheduled⟩ := hagain hevent
    obtain ⟨hdue, hnone⟩ := dues_of_takes takes (hevent ▸ hdues)
    have hlater : t'.max e.due = t' := Duration.max_eq_left (by
      rw [Duration.le_def, ht']
      exact Nat.le_add_right _ _)
    have hafter := effect.dues takes hnot
    rw [hscheduled, ← hevent, hnone, List.map_singleton, hlater, List.append_nil,
      List.perm_singleton] at hafter
    have htimes : timesOf (log ++ [sim.occurrence e r]) event =
        timesOf log event ++ [start + (timesOf log event).length * period] := by
      rw [timesOf_concat_self (o := sim.occurrence e r) hevent]
      exact congrArg (timesOf log event ++ [·]) ((congrArg Duration.nanos hdue).trans hnext)
    refine ⟨?_, t', hevent ▸ hafter, ?_⟩
    · rw [htimes, List.length_append, List.length_singleton, ticks_succ, ← h.times]
    · rw [htimes, List.length_append, List.length_singleton, ht', hdue, hnext, Nat.succ_mul]
      omega
  · have hsame : timesOf (log ++ [sim.occurrence e r]) event = timesOf log event :=
      timesOf_concat_of_ne hevent
    have hafter := effect.dues_of_ne takes hnot hevent (hother hevent)
    rw [hdues, List.perm_singleton] at hafter
    exact ⟨hsame.symm ▸ h.times, t, hafter, hsame.symm ▸ hnext⟩

/-! ## What schedules what -/

/-- A duty that was done comes again after its interval. -/
theorem Effect.duty_again {duty : Duty} (effect : sim.Effect (.duty i duty) sim₁)
    (hduty : duty ≠ .compromise) (hc : sim.crafts[i]? = some c) : ∃ t : Instant,
      t.nanos = sim.world.clock.nanos + (Act.interval c.agent.settings duty).nanos ∧
      (sim.successors (.duty i duty)).filter (·.2 = .duty i duty) = [(t, .duty i duty)] := by
  cases effect with
  | broadcasts craft _ _ again =>
    cases hc.symm.trans craft
    refine ⟨_, Duration.add?_eq_some_iff.1 again, ?_⟩
    simp [successors, craft, Act.interval, Duration.later_eq again]
  | @computes _ _ step craft _ advance =>
    cases hc.symm.trans craft
    have htime : sim.world.clock.add? c.agent.settings.calculateInterval =
        some step.waypoint.time := Integrator.waypoint_time advance
    refine ⟨_, Duration.add?_eq_some_iff.1 htime, ?_⟩
    simp [successors, craft, Act.interval, Duration.later_eq htime]
  | turns => exact absurd rfl hduty

/-- The positions are sampled again after the period of the samples. -/
theorem Effect.sample_again (effect : sim.Effect .sample sim₁) : ∃ t : Instant,
    t.nanos = sim.world.clock.nanos + sim.samplePeriod.nanos ∧
      (sim.successors .sample).filter (·.2 = .sample) = [(t, .sample)] := by
  cases effect with
  | samples again =>
    refine ⟨_, Duration.add?_eq_some_iff.1 again, ?_⟩
    simp [successors, Duration.later_eq again]

/-- The samples go on ticking, as only a sample schedules the next one. -/
theorem Ticking.sample_of_effect (h : Ticking start sim.samplePeriod.nanos .sample log sim)
    (takes : sim.world.queue.Takes e q) (effect : (sim.withQueue q).Effect e.event sim₁) :
    Ticking start sim.samplePeriod.nanos .sample (log ++ [sim.occurrence e r]) sim₁.flushed := by
  refine h.of_effect takes effect nofun (fun hne x hx hx' => ?_) fun heq => ?_
  · rcases cases_of_mem_successors hx with ⟨-, hsample⟩ | ⟨_, _, hduty, -⟩
    · exact hne hsample
    · exact nomatch hx'.symm.trans hduty
  · rw [heq] at effect ⊢
    obtain ⟨t, ht, hscheduled⟩ := effect.sample_again
    refine ⟨t, ?_, hscheduled⟩
    rw [ht, show (sim.withQueue q).world.clock = e.due from takes.clock]
    rfl

/-- A start schedules the first duties for now. -/
theorem filter_successors_start {duty : Duty} (hduty : duty ≠ .compromise)
    (hc : sim.crafts[i]? = some c) :
    (sim.successors (.start i)).filter (·.2 = .duty i duty) =
      [(sim.world.clock, .duty i duty)] := by
  obtain ⟨later, hfirst, hlater⟩ : ∃ later : List (Instant × Duty),
      Act.firstDuties c.agent sim.world.clock =
        [(sim.world.clock, .broadcast), (sim.world.clock, .compute)] ++ later ∧
        ∀ x ∈ later, x.2 = .compromise := by
    refine ⟨_, rfl, fun x hx => ?_⟩
    split at hx
    · split at hx
      · cases hx
      · rw [List.mem_singleton.1 hx]
    · cases hx
  have hnone : (later.map fun x => (x.1, Event.duty i x.2)).filter (·.2 = .duty i duty) = [] := by
    refine List.filter_eq_nil_iff.2 fun x hx => ?_
    obtain ⟨y, hy, rfl⟩ := List.mem_map.1 hx
    simpa [hlater y hy] using Ne.symm hduty
  simp only [successors, hc, hfirst, List.map_append, List.filter_append, hnone]
  cases duty with
  | compromise => exact absurd rfl hduty
  | _ => simp

/-! ## The agents -/

variable {shared : AgentSettings}

/-- The agent of an index is to start, or its duties have been ticking since its start. -/
inductive Timely (shared : AgentSettings) (start : Instant) (i : Nat) (log : List Occurrence)
    (sim : Simulation) : Prop
  | waits (pending : sim.dues (.start i) = [start]) (never : timesOf log (.start i) = [])
      (idle : ∀ duty, duty ≠ .compromise →
        sim.dues (.duty i duty) = [] ∧ timesOf log (.duty i duty) = [])
  | runs (done : sim.dues (.start i) = []) (once : timesOf log (.start i) = [start.nanos])
      (duties : ∀ duty, duty ≠ .compromise →
        Ticking start.nanos (Act.interval shared duty).nanos (.duty i duty) log sim)

/-- No other event schedules or takes away the start of an agent. -/
theorem Effect.dues_start (effect : (sim.withQueue q).Effect e.event sim₁)
    (takes : sim.world.queue.Takes e q) (hne : e.event ≠ .start i) :
    (sim₁.flushed.dues (.start i)).Perm (sim.dues (.start i)) :=
  effect.dues_of_ne takes nofun hne fun _ => start_not_mem_successors

/-- An agent that starts has its duties pending at once. -/
theorem Timely.begins {start : Instant} (takes : sim.world.queue.Takes e q)
    (effect : (sim.withQueue q).Effect e.event sim₁) (hevent : e.event = .start i)
    (hc : sim.crafts[i]? = some c) (pending : sim.dues (.start i) = [start])
    (never : timesOf log (.start i) = [])
    (idle : ∀ duty, duty ≠ .compromise →
      sim.dues (.duty i duty) = [] ∧ timesOf log (.duty i duty) = []) :
    Timely shared start i (log ++ [sim.occurrence e r]) sim₁.flushed := by
  obtain ⟨hdue, hnone⟩ := dues_of_takes takes (hevent ▸ pending)
  refine .runs ?_ ?_ fun duty hduty => ?_
  · have hnew : ((sim.withQueue q).successors e.event).filter (·.2 = .start i) = [] :=
      List.filter_eq_nil_iff.2 fun x hx => by simpa using start_not_mem_successors hx
    have hafter : (sim₁.flushed.dues (.start i)).Perm _ := effect.dues takes nofun
    rw [hnew, ← hevent, hnone] at hafter
    exact hevent ▸ List.perm_nil.1 hafter
  · rw [timesOf_concat_self (o := sim.occurrence e r) hevent, never]
    exact congrArg (fun t : Instant => [t.nanos]) hdue
  · obtain ⟨hidle, htimes⟩ := idle duty hduty
    have hne : e.event ≠ .duty i duty := fun heq => nomatch hevent.symm.trans heq
    have hsame : timesOf (log ++ [sim.occurrence e r]) (.duty i duty) = [] :=
      (timesOf_concat_of_ne hne).trans htimes
    have hleft := takes.dues_of_ne hne
    rw [show sim.world.queue.dues (.duty i duty) = [] from hidle, List.nil_perm] at hleft
    have hafter : (sim₁.flushed.dues (.duty i duty)).Perm _ := effect.dues takes nofun
    have hclock : (sim.withQueue q).world.clock = e.due := takes.clock
    have hc' : (sim.withQueue q).crafts[i]? = some c := hc
    rw [hleft, List.append_nil, hevent, filter_successors_start hduty hc', List.map_singleton,
      List.perm_singleton, hclock, Duration.max_eq_left (Nat.le_refl _)] at hafter
    refine ⟨by rw [hsame]; rfl, e.due, hafter, ?_⟩
    rw [hsame, hdue, List.length_nil, Nat.zero_mul, Nat.add_zero]

/-- Everything goes on as it should if no address is refused. -/
theorem Timely.of_effect {start : Instant} (h : Timely shared start i log sim)
    (takes : sim.world.queue.Takes e q) (effect : (sim.withQueue q).Effect e.event sim₁)
    (hc : sim.crafts[i]? = some c) (hpaced : ∀ duty, Act.interval c.agent.settings duty =
      Act.interval shared duty) :
    Timely shared start i (log ++ [sim.occurrence e r]) sim₁.flushed := by
  -- a duty comes of the start of its agent or of the same duty done before
  have hother : e.event ≠ .start i → ∀ duty, e.event ≠ .duty i duty →
      ∀ x ∈ (sim.withQueue q).successors e.event, x.2 ≠ .duty i duty := by
    intro hstart duty hne x hx hx'
    rcases duty_of_mem_successors hx hx' with hevent | ⟨hevent, -⟩
    · exact hstart hevent
    · exact hne hevent
  cases h with
  | waits pending never idle =>
    by_cases hevent : e.event = .start i
    · exact .begins takes effect hevent hc pending never idle
    · refine .waits (List.perm_singleton.1 (pending ▸ effect.dues_start takes hevent))
        ((timesOf_concat_of_ne hevent).trans never) fun duty hduty => ?_
      obtain ⟨hidle, htimes⟩ := idle duty hduty
      have hne := event_ne_of_dues_eq_nil takes hidle
      have hafter : (sim₁.flushed.dues (.duty i duty)).Perm (sim.dues (.duty i duty)) :=
        effect.dues_of_ne takes nofun hne (hother hevent duty hne)
      exact ⟨List.perm_nil.1 (hidle ▸ hafter), (timesOf_concat_of_ne hne).trans htimes⟩
  | runs done once duties =>
    have hevent := event_ne_of_dues_eq_nil takes done
    refine .runs (List.perm_nil.1 (done ▸ effect.dues_start takes hevent))
      ((timesOf_concat_of_ne hevent).trans once) fun duty hduty => ?_
    refine (duties duty hduty).of_effect takes effect nofun (hother hevent duty) fun heq => ?_
    rw [heq] at effect ⊢
    have hc' : (sim.withQueue q).crafts[i]? = some c := hc
    obtain ⟨t, ht, hscheduled⟩ := effect.duty_again hduty hc'
    refine ⟨t, ?_, hscheduled⟩
    rw [ht, hpaced, show (sim.withQueue q).world.clock = e.due from takes.clock]

/-! ## The whole run -/

/-- A run that has gone on as its timetable says. -/
structure OnSchedule (t : Timetable) (log : List Occurrence) (sim : Simulation) : Prop where
  stopTime : sim.stopTime = t.stop
  samplePeriod : sim.samplePeriod = t.period
  paced : ∀ (i : Nat) (c : Craft), sim.crafts[i]? = some c → ∀ duty,
    Act.interval c.agent.settings duty = Act.interval t.agents duty
  early : ∀ o ∈ log, o.time < t.stop
  agents : ∀ i < sim.crafts.length, Timely t.agents (t.startOf i) i log sim
  sample : Ticking 0 t.period.nanos .sample log sim

/-- No address of an agent is refused. -/
def Allows (sim : Simulation) : Prop :=
  ∀ a ∈ sim.ids, sim.world.network.refused.contains a = false

variable {t : Timetable}

theorem OnSchedule.move (h : OnSchedule t log sim) (hallowed : sim.Allows)
    (hm : sim.Moves e r sim') : OnSchedule t (log ++ [sim.occurrence e r]) sim' := by
  cases hm with
  | refused _ _ _ _ craft refused =>
    rw [hallowed _ (Fleet.mem_ids craft)] at refused
    cases refused
  | @went q sim₁ popped takes early effect inReach =>
    obtain ⟨_, hleads⟩ := effect.leads
    refine ⟨hleads.stopTime.trans h.stopTime, hleads.samplePeriod.trans h.samplePeriod,
      fun i c' hc' duty => ?_, fun o ho => ?_, fun i hi => ?_, ?_⟩
    · obtain ⟨c, hc, -, hsettings⟩ := exists_craft_of_roster effect.roster_eq hc'
      rw [← hsettings]
      exact h.paced i c hc duty
    · rcases List.mem_append.1 ho with ho | ho
      · exact h.early o ho
      · rw [List.mem_singleton.1 ho, ← h.stopTime]
        exact early
    · have hlength : sim₁.crafts.length = sim.crafts.length := length_eq_of_roster effect.roster_eq
      have hi : i < sim.crafts.length := hlength ▸ hi
      have hc := List.getElem?_eq_getElem hi
      exact (h.agents i hi).of_effect takes effect hc (h.paced i _ hc)
    · rw [← h.samplePeriod]
      exact Ticking.sample_of_effect (h.samplePeriod ▸ h.sample) takes effect

/-- What ticks has come at just the ticks before the stop time when nothing is left before it. -/
theorem Ticking.periodic {stop : Nat} (h : Ticking start period event log sim)
    (hearly : ∀ o ∈ log, o.time.nanos < stop)
    (hlate : ∀ t ∈ sim.dues event, stop ≤ t.nanos) :
    Periodic start period stop (timesOf log event) := by
  obtain ⟨t, hdues, ht⟩ := h.next
  rw [h.times]
  refine periodic_ticks (fun n hn => ?_) ?_
  · rw [← h.times] at hn
    obtain ⟨o, ho, rfl⟩ := List.mem_map.1 hn
    exact hearly o (List.mem_filter.1 ho).1
  · rw [← ht]
    exact hlate t (by rw [hdues]; exact List.mem_singleton_self t)

/-- When the run is over, all has taken place as it should. -/
theorem OnSchedule.kept (h : OnSchedule t log sim) (hc : sim.Closes sim') :
    t.Kept sim'.crafts.length log := by
  have hlate : ∀ event, ∀ d ∈ sim.dues event, t.stop.nanos ≤ d.nanos := by
    intro event d hd
    obtain ⟨e, he, -, rfl⟩ := EventQueue.mem_dues.1 hd
    rw [← h.stopTime]
    exact hc.late e he
  have hlength : sim'.crafts.length = sim.crafts.length := length_eq_of_roster hc.roster_eq
  refine ⟨fun i hi => ?_, fun i hi duty hduty => ?_, h.sample.periodic h.early (hlate _)⟩
  · cases h.agents i (hlength ▸ hi) with
    | waits pending never idle =>
      have hstop := hlate (.start i) _ (by rw [pending]; exact List.mem_singleton_self _)
      rw [never, if_neg (Duration.not_lt.2 hstop)]
      rfl
    | runs done once duties =>
      obtain ⟨o, ho, htime⟩ : ∃ o ∈ log, o.time.nanos = (t.startOf i).nanos := by
        have hmem : (t.startOf i).nanos ∈ timesOf log (.start i) := by
          rw [once]
          exact List.mem_singleton_self _
        obtain ⟨o, ho, htime⟩ := List.mem_map.1 hmem
        exact ⟨o, (List.mem_filter.1 ho).1, htime⟩
      have hlt : t.startOf i < t.stop := htime.symm.trans_lt (h.early o ho)
      rw [once, if_pos hlt]
      rfl
  · cases h.agents i (hlength ▸ hi) with
    | waits pending never idle =>
      have hstop := hlate (.start i) _ (by rw [pending]; exact List.mem_singleton_self _)
      rw [(idle duty hduty).2]
      refine periodic_ticks (n := 0) nofun ?_
      rw [Nat.zero_mul]
      exact hstop
    | runs done once duties => exact (duties duty hduty).periodic h.early (hlate _)

section Built

variable {s : Settings}

/-- The times of the first events. -/
theorem time_of_mem_firstEvents {agents : Nat} {start : Instant} {x : Instant × Event}
    (hx : x ∈ firstEvents agents start) : x = (.zero, .start 0) ∨
      (∃ i, x = (start, .start (i + 1))) ∨ x = (.zero, .sample) := by
  simp only [firstEvents, List.cons_append, List.mem_cons, List.mem_append, List.mem_map,
    List.not_mem_nil, or_false] at hx
  refine hx.imp id (Or.imp ?_ id)
  rintro ⟨i, -, h⟩
  exact ⟨i, h.symm⟩

/-- What is among the first events once is pending once. -/
theorem Built.dues_of_mem (h : first.Built s) {start time : Instant}
    (hs : s.followerStart = .ok start)
    (hmem : event ∈ (firstEvents first.crafts.length start).map Prod.snd)
    (htime : ∀ x ∈ firstEvents first.crafts.length start, x.2 = event → x.1 = time) :
    first.dues event = [time] := by
  obtain ⟨start', hs', hlength⟩ := h.length_numbers event
  cases hs.symm.trans hs'
  rw [List.count_eq_one_of_mem (nodup_firstEvents _ _) hmem, EventQueue.numbers,
    List.length_map] at hlength
  have hone : (first.dues event).length = 1 := (List.length_map _).trans hlength
  obtain ⟨d, hd⟩ := List.length_eq_one_iff.1 hone
  rw [hd]
  obtain ⟨e, he, hevent, rfl⟩ := EventQueue.mem_dues.1
    (show d ∈ first.dues event by rw [hd]; exact List.mem_singleton_self d)
  exact congrArg (fun t => [t]) (htime _ (h.mem_firstEvents hs he) hevent)

/-- At first every start is pending, and so is the first sample. -/
theorem Built.onSchedule (h : first.Built s) : ∃ t : Timetable, t.Fits s ∧
    OnSchedule t [] first := by
  obtain ⟨shared, hshared, hcrafts⟩ := h.crafts
  obtain ⟨start, hstart, -⟩ := h.live
  refine ⟨⟨start, first.stopTime, first.samplePeriod, shared⟩,
    ⟨hstart, h.stopTime, h.samplePeriod, hshared⟩, rfl, rfl, fun i c hc duty => ?_, nofun,
    fun i hi => .waits ?_ rfl fun duty _ => ⟨?_, rfl⟩, rfl, .zero, ?_, ?_⟩
  · obtain ⟨_, _, rfl⟩ := hcrafts i c hc
    cases duty <;> rfl
  · refine h.dues_of_mem hstart (start_mem_firstEvents hi start) fun x hx hevent => ?_
    rcases time_of_mem_firstEvents hx with rfl | ⟨_, rfl⟩ | rfl <;> cases hevent <;> rfl
  · refine List.eq_nil_iff_forall_not_mem.2 fun d hd => ?_
    obtain ⟨e, he, hevent, -⟩ := EventQueue.mem_dues.1 hd
    rcases h.event_of_live he with ⟨_, -, hstarts⟩ | hsample
    · cases hevent.symm.trans hstarts
    · cases hevent.symm.trans hsample
  · refine h.dues_of_mem hstart (by simp [firstEvents]) fun x hx hevent => ?_
    rcases time_of_mem_firstEvents hx with rfl | ⟨_, rfl⟩ | rfl <;> cases hevent
    rfl
  · exact (Nat.zero_add _).trans (Nat.zero_mul _) |>.symm

end Built

/-! ## Refusals -/

theorem Allows.of_same (h : sim'.Allows) (hroster : sim'.roster = sim.roster)
    (hrefused : sim'.world.network.refused = sim.world.network.refused) : sim.Allows := by
  intro a ha
  rw [← hrefused]
  exact h a (by rwa [ids_eq_of_roster hroster])

/-- What is refused once is refused from then on. -/
theorem Allows.of_refuse {a : Address} (h : (sim.refuse a).Allows) : sim.Allows := by
  intro b hb
  have hids : (sim.refuse a).ids = sim.ids := by
    obtain ⟨_, heq⟩ := sim.refuse_eq a
    rw [heq]
    rfl
  have hafter := h b (hids ▸ hb)
  unfold Simulation.refuse World.refuse Network.refuse at hafter
  cases hput : sim.world.network.refused.put? a () with
  | none =>
    rw [hput] at hafter
    exact hafter
  | some refused =>
    rw [hput] at hafter
    refine Bool.eq_false_iff.2 fun hbefore => ?_
    have hstill := (Registry.contains_put? hput b).2 (.inr hbefore)
    rw [show refused.contains b = false from hafter] at hstill
    cases hstill

theorem Ticking.refuse (h : Ticking start period event log sim) (a : Address) :
    Ticking start period event log (sim.refuse a) := by
  obtain ⟨_, heq⟩ := sim.refuse_eq a
  rw [heq]
  exact ⟨h.times, h.next⟩

theorem OnSchedule.refuse (h : OnSchedule t log sim) (a : Address) :
    OnSchedule t log (sim.refuse a) := by
  have hsample := h.sample.refuse a
  have hagents : ∀ i < sim.crafts.length, Timely t.agents (t.startOf i) i log (sim.refuse a) := by
    intro i hi
    cases h.agents i hi with
    | waits pending never idle =>
      obtain ⟨_, heq⟩ := sim.refuse_eq a
      rw [heq]
      exact .waits pending never idle
    | runs done once duties =>
      refine .runs ?_ once fun duty hduty => (duties duty hduty).refuse a
      obtain ⟨_, heq⟩ := sim.refuse_eq a
      rw [heq]
      exact done
  obtain ⟨_, heq⟩ := sim.refuse_eq a
  rw [heq] at hsample hagents ⊢
  exact ⟨h.stopTime, h.samplePeriod, h.paced, h.early, hagents, hsample⟩

/-- A run in which no address of an agent is refused has taken place as its timetable says. -/
theorem Reaches.kept (h : first.Reaches log sim) (hu : first.Underway)
    (hfirst : OnSchedule t [] first) (hf : sim.finished = true) (hallowed : sim.Allows) :
    t.Kept sim.crafts.length log := by
  have hall := h.induction_to_end (P := fun log sim => sim.Allows → OnSchedule t log sim)
    (Q := fun log sim => sim.Allows → t.Kept sim.crafts.length log) hu (fun _ => hfirst)
    (fun _ _ a _ hp ha => (hp ha.of_refuse).refuse a)
    (fun _ _ _ _ _ _ hm _ hp ha =>
      have hbefore := ha.of_same hm.roster_eq hm.refused_eq
      (hp hbefore).move hbefore hm)
    (fun _ _ _ _ hc hp ha => (hp (ha.of_same hc.roster_eq hc.refused_eq)).kept hc)
    fun _ sim a _ hq ha => ?_
  · rcases hall with ⟨hu, -⟩ | ⟨-, hq⟩
    · exact nomatch hu.unfinished.symm.trans hf
    · exact hq hallowed
  · have hkept := hq ha.of_refuse
    obtain ⟨_, heq⟩ := sim.refuse_eq a
    rw [heq]
    exact hkept

end Simulation

end SwarmFlight
