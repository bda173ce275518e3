import Mathlib.Data.List.Count
import SwarmFlight.Proofs.Queue.Awaited
import SwarmFlight.Proofs.Run.Outcomes
import SwarmFlight.Proofs.Run.Rests
import SwarmFlight.Proofs.Track

/-!
# The life of an agent

An agent `Lives` from its creation on : it starts at some time, hears datagrams, does its
duties as they are taken out of the queue, has its track pruned and stops. Between any two of
these the world may change in every way that schedules no duties for it (`World.Spares`).

Until its first step an agent rests where it was created, and from then on its track ends
just where its next step begins (`Poised`). Each thing that can happen to it keeps it so,
hence all of them (`Lives.poised`).
-/

namespace SwarmFlight

/-! ## Lives -/

/-- A scene with another queue. -/
def Scene.withQueue {ε : Type} (s : Scene ε) (queue : EventQueue ε) : Scene ε :=
  { s with world := { s.world with queue } }

section Life

variable {ε : Type} [DecidableEq ε]

/-- The pending entries of a duty of an agent. -/
def EventQueue.ticks (q : EventQueue ε) (wrap : Duty → ε) (duty : Duty) : List (Entry ε) :=
  q.awaited fun x => x = wrap duty

/-- What happens to a world without an agent : its queue stays in order, and no duties of the agent
are scheduled. -/
structure World.Spares (wrap : Duty → ε) (w w' : World ε) : Prop where
  wellFormed : w'.queue.WellFormed
  duties : ∀ duty, (w'.queue.ticks wrap duty).Subperm (w.queue.ticks wrap duty)

theorem EventQueue.Takes.spares {w : World ε} {e : Entry ε} {q : EventQueue ε}
    (h : w.queue.Takes e q) (wrap : Duty → ε) : w.Spares wrap { w with queue := q } := by
  refine ⟨h.wellFormed, fun duty => ?_⟩
  have hticks := h.awaited fun x => x = wrap duty
  split at hticks
  · exact (List.sublist_cons_self _ _).subperm.trans hticks.symm.subperm
  · exact hticks.symm.subperm

theorem EventQueue.Takes.mem_ticks {q q' : EventQueue ε} {e : Entry ε} {wrap : Duty → ε}
    {duty : Duty} (h : q.Takes e q') (event : e.event = wrap duty) : e ∈ q.ticks wrap duty :=
  mem_awaited.2 ⟨h.mem, by simpa using event⟩

variable [Ranked ε]

omit [DecidableEq ε] in
/-- The first duties have one step among them. -/
theorem Act.count_firstDuties (a : Agent) (now : Instant) :
    ((firstDuties a now).map Prod.snd).count .compute = 1 := by
  unfold firstDuties
  split
  · split <;> rfl
  · rfl

theorem Act.length_ticks_firstDuties {wrap : Duty → ε} {q : EventQueue ε}
    (hwrap : Function.Injective wrap) (hq : q.WellFormed) (idle : q.ticks wrap .compute = [])
    (a : Agent) (now : Instant) :
    ((q.scheduleAll ((firstDuties a now).map fun x => (x.1, wrap x.2))).ticks wrap
      .compute).length = 1 := by
  have hcount := hq.length_numbers_scheduleAll
    ((firstDuties a now).map fun x => (x.1, wrap x.2)) (wrap .compute)
  have hevents : ((firstDuties a now).map fun x => (x.1, wrap x.2)).map Prod.snd
      = ((firstDuties a now).map Prod.snd).map wrap := by
    rw [List.map_map, List.map_map]
    rfl
  change q.awaited (fun x => x = wrap .compute) = [] at idle
  rw [hevents, List.count_map_of_injective _ _ hwrap, count_firstDuties, EventQueue.numbers,
    EventQueue.numbers, List.length_map, List.length_map, idle] at hcount
  exact hcount

/-- The life of an agent that rests at a position at first, and how many steps were due so far. Its
duties are put on the queue wrapped. -/
inductive Lives (wrap : Duty → ε) (position : Vec3) : Nat → Scene ε → Prop
  /-- It is created in some world, at some time. -/
  | created (id : Address) (role : Role) (settings : AgentSettings) {w : World ε}
      (wellFormed : w.queue.WellFormed) (idle : ∀ duty, w.queue.ticks wrap duty = []) :
      Lives wrap position 0 ⟨Agent.create id role settings, Track.restingAt position, w⟩
  /-- Something happens without it. -/
  | meanwhile {n : Nat} {s : Scene ε} {w : World ε} (h : Lives wrap position n s)
      (spares : s.world.Spares wrap w) : Lives wrap position n { s with world := w }
  /-- It starts, or fails to. -/
  | starts {n : Nat} {s s' : Scene ε} {r : Except Failure Unit} (h : Lives wrap position n s)
      (start : Act.start wrap s = returned r s') : Lives wrap position n s'
  /-- A datagram is delivered. -/
  | hears {n : Nat} {s s' : Scene ε} {r : Except Failure Bool} (sender : Address)
      (payload : List UInt8) (h : Lives wrap position n s)
      (receive : Act.receive sender payload s = returned r s') : Lives wrap position n s'
  /-- One of its duties is due. -/
  | does {n : Nat} {s s' : Scene ε} {e : Entry ε} {q : EventQueue ε} {r : Except Failure Unit}
      (duty : Duty) (h : Lives wrap position n s) (pop : s.world.queue.pop = (some e, q))
      (event : e.event = wrap duty)
      (handle : Act.handle wrap duty (s.withQueue q) = returned r s') :
      Lives wrap position (if duty = .compute then n + 1 else n) s'
  /-- The positions before some time are not needed any more. -/
  | prunes {n : Nat} {s : Scene ε} (now : Instant) (h : Lives wrap position n s) :
      Lives wrap position n { s with track := s.track.prune now }
  /-- It stops, or fails to. -/
  | stops {n : Nat} {s s' : Scene ε} {r : Except Failure Unit} (h : Lives wrap position n s)
      (stop : Act.stop s = returned r s') : Lives wrap position n s'

/-! ## What holds all along -/

/-- Where an agent is in its life, and what its track is like then. Until its first step it rests
where it was created; from then on its track ends just where its next step begins. -/
inductive Poised (wrap : Duty → ε) (position : Vec3) : Nat → Scene ε → Prop
  | waits {s : Scene ε} (fresh : s.agent.stage = .uninitialized) (slots : s.agent.slots = {})
      (wellFormed : s.world.queue.WellFormed) (idle : s.world.queue.ticks wrap .compute = [])
      (track : s.track = Track.restingAt position) (velocity : s.agent.velocity = Vec3.zero) :
      Poised wrap position 0 s
  | runs {n : Nat} {s : Scene ε} (running : s.agent.stage = .running)
      (wellFormed : s.world.queue.WellFormed)
      (once : (s.world.queue.ticks wrap .compute).length ≤ 1)
      (first : n = 0 → s.track = Track.restingAt position ∧ s.agent.velocity = Vec3.zero)
      (later : n ≠ 0 → ∀ e ∈ s.world.queue.ticks wrap .compute, e.due = s.track.latest.time) :
      Poised wrap position n s
  | stopped {n : Nat} {s : Scene ε} (stopped : s.agent.stage = .stopped) : Poised wrap position n s

variable {wrap : Duty → ε} {position : Vec3} {n : Nat} {s s' : Scene ε} {w : World ε}
  {e : Entry ε} {q : EventQueue ε}

namespace Poised

omit [Ranked ε] in
theorem meanwhile (h : Poised wrap position n s) (spares : s.world.Spares wrap w) :
    Poised wrap position n { s with world := w } := by
  have hticks := spares.duties .compute
  cases h with
  | waits fresh slots wellFormed idle track velocity =>
    rw [idle] at hticks
    exact .waits fresh slots spares.wellFormed (List.subperm_nil.1 hticks) track velocity
  | runs running wellFormed once first later =>
    exact .runs running spares.wellFormed (hticks.length_le.trans once) first
      fun hn e he => later hn e (hticks.subset he)
  | stopped stopped => exact .stopped stopped

omit [Ranked ε] in
theorem prunes (h : Poised wrap position n s) (now : Instant) :
    Poised wrap position n { s with track := s.track.prune now } := by
  have hresting : (Track.restingAt position).prune now = Track.restingAt position := by
    unfold Track.prune
    split <;> rfl
  cases h with
  | waits fresh slots wellFormed idle track velocity =>
    exact .waits fresh slots wellFormed idle ((congrArg (·.prune now) track).trans hresting)
      velocity
  | runs running wellFormed once first later =>
    refine .runs running wellFormed once (fun hn => ?_) fun hn e he => ?_
    · exact ⟨(congrArg (·.prune now) (first hn).1).trans hresting, (first hn).2⟩
    · exact (later hn e he).trans (congrArg Waypoint.time (Track.latest_prune _ _)).symm
  | stopped stopped => exact .stopped stopped

/-- What neither moves the agent nor schedules a step. -/
theorem frame {events : List (Instant × ε)} (h : Poised wrap position n s)
    (hstage : s'.agent.stage = s.agent.stage)
    (hidle : s.agent.stage ≠ .running → s'.agent = s.agent)
    (hqueue : s'.world.queue = s.world.queue.scheduleAll events)
    (hevents : ∀ x ∈ events, x.2 ≠ wrap .compute) (htrack : s'.track = s.track)
    (hvelocity : s'.agent.velocity = s.agent.velocity) : Poised wrap position n s' := by
  have hticks : s.world.queue.WellFormed → (s'.world.queue.ticks wrap .compute).Perm
      (s.world.queue.ticks wrap .compute) := fun hq => by
    rw [hqueue]
    exact hq.awaited_scheduleAll_of_none fun x hx => by simpa using hevents x hx
  cases h with
  | waits fresh slots wellFormed idle track velocity =>
    have hagent := hidle (by rw [fresh]; exact nofun)
    have hnone := hticks wellFormed
    rw [idle, List.perm_nil] at hnone
    exact .waits (hstage.trans fresh) ((congrArg Agent.slots hagent).trans slots)
      (hqueue ▸ wellFormed.scheduleAll) hnone (htrack.trans track) (hvelocity.trans velocity)
  | runs running wellFormed once first later =>
    refine .runs (hstage.trans running) (hqueue ▸ wellFormed.scheduleAll)
      ((hticks wellFormed).length_eq.trans_le once) (fun hn => ?_) fun hn e he => ?_
    · exact ⟨htrack.trans (first hn).1, hvelocity.trans (first hn).2⟩
    · exact (later hn e ((hticks wellFormed).mem_iff.1 he)).trans
        (congrArg (·.latest.time) htrack).symm
  | stopped stopped => exact .stopped (hstage.trans stopped)

theorem keeps {events : List (Instant × ε)} {sent : Nat} (h : Poised wrap position n s)
    (hk : s.Keeps events sent s') (hevents : ∀ x ∈ events, x.2 ≠ wrap .compute)
    (hrests : s'.track = s.track ∧ s'.agent.velocity = s.agent.velocity) :
    Poised wrap position n s' :=
  h.frame hk.stage hk.idle hk.queue hevents hrests.1 hrests.2

omit [Ranked ε] in
/-- An agent that has not started yet has nothing to call off. -/
theorem slots_of_fresh (h : Poised wrap position n s) (fresh : s.agent.stage = .uninitialized) :
    s.agent.slots = {} := by
  cases h with
  | waits _ slots => exact slots
  | runs running => cases running.symm.trans fresh
  | stopped stopped => cases stopped.symm.trans fresh

theorem starts {r : Except Failure Unit} (hwrap : Function.Injective wrap)
    (h : Poised wrap position n s) (start : Act.start wrap s = returned r s') :
    Poised wrap position n s' := by
  have hends : Returns False (Act.StartEnds wrap s) (Act.start wrap s) :=
    Act.start_returns h.slots_of_fresh
  have hrests := (Act.Rests.start : Act.Rests (Act.start wrap)) s
  rw [start] at hends hrests
  obtain ⟨htrack, hvelocity⟩ := hrests.of_returned
  have hends := hends.of_returned
  cases r with
  | error f =>
    obtain ⟨rfl, -⟩ := hends
    exact h
  | ok u =>
    have hends : Act.Starts wrap s s' := hends
    cases h with
    | runs running => cases running.symm.trans hends.fresh
    | stopped stopped => cases stopped.symm.trans hends.fresh
    | waits fresh slots wellFormed idle track velocity =>
      refine .runs (congrArg Part.stage hends.part) (hends.queue ▸ wellFormed.scheduleAll) ?_
        (fun _ => ⟨htrack.trans track, hvelocity.trans velocity⟩) fun hn => absurd rfl hn
      rw [hends.queue, Act.length_ticks_firstDuties hwrap wellFormed idle]

omit [Ranked ε] in
/-- What holds while an agent runs. -/
theorem of_running (h : Poised wrap position n s) (running : s.agent.stage = .running) :
    (s.world.queue.ticks wrap .compute).length ≤ 1 ∧
      (n = 0 → s.track = Track.restingAt position ∧ s.agent.velocity = Vec3.zero) ∧
      (n ≠ 0 → ∀ e ∈ s.world.queue.ticks wrap .compute, e.due = s.track.latest.time) := by
  cases h with
  | waits fresh => cases running.symm.trans fresh
  | stopped stopped => cases running.symm.trans stopped
  | runs _ _ once first later => exact ⟨once, first, later⟩

omit [Ranked ε] in
/-- A step is not due before the end of the track. -/
theorem behind (h : Poised wrap position n s) (running : s.agent.stage = .running)
    (he : e ∈ s.world.queue.ticks wrap .compute) : s.track.latest.time ≤ e.due := by
  obtain ⟨-, first, later⟩ := h.of_running running
  by_cases hn : n = 0
  · rw [(first hn).1]
    exact Nat.zero_le _
  · exact Nat.le_of_eq (congrArg Duration.nanos (later hn e he).symm)

/-- A running agent takes the step that is due. -/
theorem steers {r : Except Failure Unit} (h : Poised wrap position n s)
    (running : s.agent.stage = .running) (takes : s.world.queue.Takes e q)
    (event : e.event = wrap .compute)
    (handle : Act.handle wrap .compute (s.withQueue q) = returned r s') :
    ∃ step, s.agent.advance s.track e.due = some step ∧
      s' = Act.steered (s.withQueue q) wrap step := by
  have hbehind : (s.withQueue q).track.latest.time ≤ (s.withQueue q).world.clock := by
    rw [show (s.withQueue q).world.clock = e.due from takes.clock]
    exact h.behind running (takes.mem_ticks event)
  have hsteers := @Act.compute_steers ε _ wrap False _ hbehind False.elim
  rw [← Act.handle_compute (s := s.withQueue q) running, handle] at hsteers
  obtain ⟨-, step, hstep, hs'⟩ := hsteers.of_returned
  have hclock : (s.withQueue q).world.clock = e.due := takes.clock
  rw [hclock] at hstep
  exact ⟨step, hstep, hs'⟩

omit [Ranked ε] in
theorem wellFormed (h : Poised wrap position n s) (hs : s.agent.stage ≠ .stopped) :
    s.world.queue.WellFormed := by
  cases h with
  | waits _ _ wellFormed => exact wellFormed
  | runs _ wellFormed => exact wellFormed
  | stopped stopped => exact absurd stopped hs

omit [Ranked ε] in
theorem takes_of_pop (h : Poised wrap position n s) (hs : s.agent.stage ≠ .stopped)
    (pop : s.world.queue.pop = (some e, q)) : s.world.queue.Takes e q := by
  rcases (h.wellFormed hs).pop_cases with ⟨q', hnone, -⟩ | ⟨e', q', hsome, takes, -⟩
  · rw [pop] at hnone
    cases hnone
  · rw [pop] at hsome
    cases hsome
    exact takes

/-- After a step the track ends where the next one begins. -/
theorem of_steered {step : MotionStep} (h : Poised wrap position n s)
    (running : s.agent.stage = .running) (takes : s.world.queue.Takes e q)
    (event : e.event = wrap .compute) (advance : s.agent.advance s.track e.due = some step) :
    Poised wrap position (n + 1) (Act.steered (s.withQueue q) wrap step) := by
  have hnone : q.ticks wrap .compute = [] := by
    have hticks : (s.world.queue.ticks wrap .compute).Perm (e :: q.ticks wrap .compute) :=
      takes.awaited_of_pos (by simpa using event)
    have hlength := hticks.length_eq
    have honce := (h.of_running running).1
    rw [List.length_cons] at hlength
    exact List.length_eq_zero_iff.1 (by omega)
  have hqueue : (Act.steered (s.withQueue q) wrap step).world.queue =
      (q.scheduleAt step.waypoint.time (wrap .compute)).2 := rfl
  have hticks : ((q.scheduleAt step.waypoint.time (wrap .compute)).2.ticks wrap .compute).Perm
      (q.newEntry step.waypoint.time (wrap .compute) :: q.ticks wrap .compute) :=
    takes.wellFormed.awaited_scheduleAt _ (by simp)
  rw [hnone, List.perm_singleton] at hticks
  have htime := Integrator.waypoint_time advance
  refine .runs running (hqueue ▸ takes.wellFormed.scheduleAt _ _) ?_
    (fun hn => absurd hn (Nat.succ_ne_zero n)) fun _ e' he' => ?_
  · rw [hqueue, hticks]
    exact Nat.le_refl 1
  · rw [hqueue, hticks, List.mem_singleton] at he'
    rw [he']
    refine Duration.max_eq_left ?_
    rw [takes.clock, Duration.le_def, Duration.add?_eq_some_iff.1 htime]
    exact Nat.le_add_right _ _

/-- A duty that is no step does not move the agent. -/
theorem of_handle {r : Except Failure Unit} {duty : Duty} (hwrap : Function.Injective wrap)
    (h : Poised wrap position n s) (hduty : duty ≠ .compute)
    (handle : Act.handle wrap duty s = returned r s') : Poised wrap position n s' := by
  have hrests := (Act.Rests.handle hduty : Act.Rests (Act.handle wrap duty)) s
  rw [handle] at hrests
  have hrests := hrests.of_returned
  by_cases hturn : duty = .compromise
  · subst hturn
    by_cases hrun : s.agent.stage = .running
    · have hnothing : s.world.queue = s.world.queue.scheduleAll [] := rfl
      rw [Act.handle_compromise hrun] at handle
      cases r <;> cases handle
      revert hrests
      split
      all_goals
        intro hrests
        exact h.frame rfl (absurd hrun) hnothing (by simp) hrests.1 hrests.2
    · rw [Act.handle_idle hrun] at handle
      cases r <;> cases handle
      exact h.keeps (Act.keeps_note _) (by simp) hrests
  · have hreturns := @Act.handle_returns ε _ wrap False s duty hturn False.elim
    rw [handle] at hreturns
    have hother : wrap duty ≠ wrap .compute := fun heq => hduty (hwrap heq)
    rcases hreturns.of_returned with ⟨-, -, hk⟩ | ⟨-, hr⟩
    · exact h.keeps hk (by simp) hrests
    · cases r with
      | ok => exact h.keeps hr (by simpa using hother) hrests
      | error f => exact h.keeps hr (by simp) hrests

theorem does {r : Except Failure Unit} {duty : Duty} (hwrap : Function.Injective wrap)
    (h : Poised wrap position n s) (pop : s.world.queue.pop = (some e, q))
    (event : e.event = wrap duty)
    (handle : Act.handle wrap duty (s.withQueue q) = returned r s') :
    Poised wrap position (if duty = .compute then n + 1 else n) s' := by
  by_cases hstopped : s.agent.stage = .stopped
  · have hidle : (s.withQueue q).agent.stage ≠ .running := by
      rw [show (s.withQueue q).agent.stage = .stopped from hstopped]
      exact nofun
    rw [Act.handle_idle hidle] at handle
    cases r <;> cases handle
    exact .stopped hstopped
  have takes := h.takes_of_pop hstopped pop
  by_cases hduty : duty = .compute
  · subst hduty
    rw [if_pos rfl]
    by_cases hrun : s.agent.stage = .running
    · obtain ⟨step, advance, rfl⟩ := h.steers hrun takes event handle
      exact h.of_steered hrun takes event advance
    · cases h with
      | waits _ _ _ idle =>
        have hmem := takes.mem_ticks event
        rw [idle] at hmem
        cases hmem
      | runs running => exact absurd running hrun
      | stopped stopped => exact absurd stopped hstopped
  · rw [if_neg hduty]
    exact (h.meanwhile (takes.spares wrap)).of_handle hwrap hduty handle

omit [Ranked ε] in
theorem stops {r : Except Failure Unit} (h : Poised wrap position n s)
    (stop : Act.stop s = returned r s') : Poised wrap position n s' := by
  by_cases hrun : s.agent.stage = .running
  · rw [Act.stop_eq hrun] at stop
    cases r <;> cases stop
    exact .stopped rfl
  · simp only [Act.stop, Act.bind_apply, Act.agent_apply, ne_eq, hrun, not_false_eq_true, if_true,
      Act.fail_apply] at stop
    cases r <;> cases stop
    exact h

end Poised

/-- Whatever an agent has been through, its track ends where its next step begins. -/
theorem Lives.poised (h : Lives wrap position n s) (hwrap : Function.Injective wrap) :
    Poised wrap position n s := by
  induction h with
  | created id role settings wellFormed idle => exact .waits rfl rfl wellFormed (idle _) rfl rfl
  | meanwhile h spares ih => exact ih.meanwhile spares
  | starts h start ih => exact ih.starts hwrap start
  | @hears n s s' r sender payload h receive ih =>
    have hkeeps := @Act.receive_returns ε _ False s sender payload
    have hrests := Act.Rests.receive sender payload s
    rw [receive] at hkeeps hrests
    exact ih.keeps hkeeps.of_returned (by simp) hrests.of_returned
  | does duty h pop event handle ih => exact ih.does hwrap pop event handle
  | prunes now h ih => exact ih.prunes now
  | stops h stop ih => exact ih.stops stop

/-! ## What comes when nothing gets in the way -/

namespace Lives

/-- An agent starts whenever its address can be bound. -/
theorem begins {network : Network} (h : Lives wrap position n s) (hwrap : Function.Injective wrap)
    (fresh : s.agent.stage = .uninitialized)
    (bind : s.world.network.bind s.agent.id = .ok network) :
    Lives wrap position n (Act.begun s wrap network) := by
  have hslots := (h.poised hwrap).slots_of_fresh fresh
  exact h.starts (r := .ok ()) (Act.start_eq fresh hslots bind)

/-- A broadcast is made if there is room to count what is sent. -/
theorem announces {sent : Tally} {next : Instant} (h : Lives wrap position n s)
    (pop : s.world.queue.pop = (some e, q)) (event : e.event = wrap .broadcast)
    (running : s.agent.stage = .running)
    (counts : s.agent.sent.incrementAll s.agent.audience = .ok sent)
    (again : q.clock.add? s.agent.settings.packetInterval = some next) :
    Lives wrap position n (Act.announced (s.withQueue q) wrap sent next) := by
  have hroom := Duration.isSome_add?_iff.1 (Option.isSome_of_eq_some again)
  obtain ⟨r, s', heq, rfl, next', hnext, rfl⟩ := (@Act.broadcast_announces ε _ wrap True
    (s.withQueue q) sent counts fun _ => hroom).exists_returned trivial
  obtain rfl := Option.some.inj (hnext.symm.trans again)
  exact h.does .broadcast pop event
    ((Act.handle_broadcast (s := s.withQueue q) running).trans heq)

/-- A step is taken if it ends in time. -/
theorem steers {step : MotionStep} (h : Lives wrap position n s)
    (hwrap : Function.Injective wrap) (pop : s.world.queue.pop = (some e, q))
    (event : e.event = wrap .compute) (running : s.agent.stage = .running)
    (advance : s.agent.advance s.track q.clock = some step) :
    Act.handle wrap .compute (s.withQueue q) =
      returned (.ok ()) (Act.steered (s.withQueue q) wrap step) := by
  have hp := h.poised hwrap
  have takes := hp.takes_of_pop (by rw [running]; exact nofun) pop
  have hbehind : (s.withQueue q).track.latest.time ≤ (s.withQueue q).world.clock := by
    rw [show (s.withQueue q).world.clock = e.due from takes.clock]
    exact hp.behind running (takes.mem_ticks event)
  have hroom : q.clock.nanos + s.agent.settings.calculateInterval.nanos < durationLimit :=
    Duration.isSome_add?_iff.1 (Option.isSome_of_eq_some (Integrator.waypoint_time advance))
  obtain ⟨r, s', heq, rfl, step', hstep, rfl⟩ := (@Act.compute_steers ε _ wrap True
    (s.withQueue q) hbehind fun _ => hroom).exists_returned trivial
  obtain rfl : step' = step := Option.some.inj (hstep.symm.trans advance)
  exact (Act.handle_compute (s := s.withQueue q) running).trans heq

end Lives

end Life

end SwarmFlight
