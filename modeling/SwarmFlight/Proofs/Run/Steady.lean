import SwarmFlight.Proofs.Number.Size
import SwarmFlight.Proofs.Run.Life
import SwarmFlight.Proofs.Wire

/-!
# Steps only plan ahead

A step adds the end of a segment to a track. Where the segment starts is the end of the track
so far, and an agent stays where it is at the time of its step if the segment starts at that
time (`Track.between_beq_of_start`) or leads nowhere (`Track.between_beq_of_still`). Every step
of an agent but its first starts its segment just in time, hence leaves the agent where it is;
so does its first if it is taken at the start of time or from rest with nothing to accelerate
the agent (`Lives.steady`).

The first step of an agent that starts later and has heard somebody by then is another matter :
its segment starts at time zero (`Poised.positionAt_first`), and the agent finds itself on the
way already (`Late.jumps`).
-/

namespace SwarmFlight

/-! ## Segments -/

namespace Track

variable {a b : Waypoint} {now : Instant}

/-- A segment starts where it starts. -/
theorem between_beq_of_start (hfinite : (b.position - a.position).isFinite)
    (hspan : b.time.sub a.time ≠ .zero) (hnow : now = a.time) : between a b now == a.position := by
  have hzero : now.sub a.time = .zero := by
    rw [hnow]
    exact Duration.ext (Nat.sub_self _)
  unfold between
  rw [hzero]
  exact Vec3.add_isZero (Vec3.isFinite_of_sub hfinite).2
    (Vec3.mul_isZero hfinite (Duration.isZero_ratio hspan))

/-- Who goes nowhere is always there. -/
theorem between_beq_of_still (hfinite : (b.position - a.position).isFinite)
    (hspan : b.time.sub a.time ≠ .zero) (hstill : b.position == a.position) :
    between a b now == a.position :=
  Vec3.add_isZero (Vec3.isFinite_of_sub hfinite).2
    ((Vec3.isZero_sub (Vec3.isFinite_of_sub hfinite).1 hstill).mul (Duration.isFinite_ratio hspan))

/-- A new segment leaves an agent where the track ended if it starts right now or leads nowhere. -/
theorem positionAt_cons_beq {t : Track} (hbehind : t.latest.time ≤ now)
    (hfinite : (b.position - t.latest.position).isFinite)
    (hover : b.time ≤ now → b.position == t.latest.position)
    (hwhen : now = t.latest.time ∨ b.position == t.latest.position) :
    positionAt ⟨b, t.waypoints⟩ now == t.latest.position := by
  rw [positionAt_cons]
  by_cases hnow : b.time ≤ now
  · rw [if_pos hnow]
    exact hover hnow
  have hspan : b.time.sub t.latest.time ≠ .zero := by
    intro hzero
    have hnanos : b.time.nanos - t.latest.time.nanos = 0 := congrArg Duration.nanos hzero
    rw [Duration.le_def] at hbehind hnow
    omega
  rw [if_neg hnow, if_pos hbehind]
  rcases hwhen with hstart | hstill
  · exact between_beq_of_start hfinite hspan hstart
  · exact between_beq_of_still hfinite hspan hstill

end Track

/-! ## Steps -/

namespace Integrator

variable {i : Integrator} {velocity position : Vec3} {forces : Forces} {now : Instant}
  {step : MotionStep}

/-- A step leads on with the velocity as it has become. -/
theorem waypoint_position (h : i.advance velocity forces position now = some step) :
    step.waypoint.position = position +
      (velocity + i.acceleration forces * i.step.toSeconds) * i.step.toSeconds := by
  unfold advance at h
  cases ht : now.add? i.step with
  | none =>
    rw [ht] at h
    cases h
  | some t =>
    rw [ht] at h
    cases h
    rfl

/-- A step that takes no time leads nowhere. -/
theorem still_of_instant (h : i.advance velocity forces position now = some step)
    (hfinite : step.waypoint.position.isFinite) (hstep : i.step = .zero) :
    step.waypoint.position == position := by
  rw [waypoint_position h] at hfinite ⊢
  obtain ⟨hposition, hway⟩ := Vec3.isFinite_of_add hfinite
  refine Vec3.add_isZero hposition (Vec3.mul_isZero (Vec3.isFinite_of_mul hway).1 ?_)
  rw [hstep]
  exact Duration.isZero_toSeconds_zero

/-- A step from rest leads nowhere if nothing accelerates the agent. -/
theorem still_of_rest (h : i.advance velocity forces position now = some step)
    (hfinite : step.waypoint.position.isFinite) (hrest : velocity = Vec3.zero)
    (hforces : i.acceleration forces == Vec3.zero) : step.waypoint.position == position := by
  rw [waypoint_position h] at hfinite ⊢
  obtain ⟨hposition, hway⟩ := Vec3.isFinite_of_add hfinite
  have hdt := (Vec3.isFinite_of_mul hway).2
  refine Vec3.add_isZero hposition (Vec3.IsZero.mul ?_ hdt)
  rw [hrest]
  exact Vec3.isZero_zero.add ((Vec3.isZero_of_beq hforces).mul hdt)

/-- No force, no acceleration. -/
theorem acceleration_none (hattraction : i.attractionGain.isFinite)
    (hrepulsion : i.repulsionGain.isFinite) : i.acceleration Forces.none == Vec3.zero := by
  have hsum : (Vec3.zero * i.attractionGain + Vec3.zero * i.repulsionGain).IsZero :=
    (Vec3.isZero_zero.mul hattraction).add (Vec3.isZero_zero.mul hrepulsion)
  have hmass : mass.toModel.unpack = .finite .positive (2 ^ 52) (-52) (by decide) := by rfl
  exact Vec3.IsZero.beq ⟨hsum.1.div hmass, hsum.2.1.div hmass, hsum.2.2.div hmass⟩ Vec3.isZero_zero

end Integrator

/-- What accelerates an agent, by the peers that it knows. -/
def Agent.pull (a : Agent) (track : Track) (now : Instant) : Vec3 :=
  a.settings.integrator.acceleration
    (Forces.acting a.role (track.positionAt now) a.table.snapshot)

/-- Nothing accelerates a leader, nor an agent that knows no peer. -/
theorem Agent.pull_of_calm {a : Agent} (hcalm : a.role = .leader ∨ a.table.snapshot = [])
    (hattraction : a.settings.integrator.attractionGain.isFinite)
    (hrepulsion : a.settings.integrator.repulsionGain.isFinite) (track : Track) (now : Instant) :
    a.pull track now == Vec3.zero := by
  have hforces : Forces.acting a.role (track.positionAt now) a.table.snapshot = Forces.none := by
    unfold Forces.acting
    rcases hcalm with hrole | hpeers
    · rw [hrole]
      rfl
    · rw [hpeers, List.foldl_nil, ite_self]
  unfold pull
  rw [hforces]
  exact Integrator.acceleration_none hattraction hrepulsion

section Steady

variable {ε : Type} [DecidableEq ε] [Ranked ε] {wrap : Duty → ε} {position : Vec3} {n : Nat}
  {s s' : Scene ε} {e : Entry ε} {q : EventQueue ε} {r : Except Failure Unit}

omit [Ranked ε] in
/-- A step is taken where the track ends. -/
theorem Poised.positionAt_due (h : Poised wrap position n s) (running : s.agent.stage = .running)
    (he : e ∈ s.world.queue.ticks wrap .compute) :
    s.track.positionAt e.due = s.track.latest.position :=
  if_pos (h.behind running he)

omit [Ranked ε] in
/-- A step starts where the track ends in time too, or leads nowhere, unless it is the first, comes
late and something accelerates the agent. -/
theorem Poised.starts_or_still {step : MotionStep} (h : Poised wrap position n s)
    (running : s.agent.stage = .running) (he : e ∈ s.world.queue.ticks wrap .compute)
    (advance : s.agent.advance s.track e.due = some step) (hfinite : step.waypoint.position.isFinite)
    (hwhen : n ≠ 0 ∨ e.due = .zero ∨ s.agent.pull s.track e.due == Vec3.zero) :
    e.due = s.track.latest.time ∨ step.waypoint.position == s.track.positionAt e.due := by
  obtain ⟨-, first, later⟩ := h.of_running running
  by_cases hn : n = 0
  · obtain ⟨htrack, hvelocity⟩ := first hn
    rcases hwhen.resolve_left (absurd hn) with hzero | hpull
    · -- the track has only its start at time zero
      left
      rw [hzero, htrack]
      rfl
    · exact .inr (Integrator.still_of_rest advance hfinite hvelocity hpull)
  · exact .inl (later hn e he)

omit [Ranked ε] in
/-- A step leaves an agent where it is unless it is the first, comes late and something accelerates
the agent. -/
theorem Poised.positionAt_steered {step : MotionStep} (h : Poised wrap position n s)
    (running : s.agent.stage = .running) (takes : s.world.queue.Takes e q)
    (event : e.event = wrap .compute) (advance : s.agent.advance s.track e.due = some step)
    (hfinite : (step.waypoint.position - s.track.positionAt e.due).isFinite)
    (hwhen : n ≠ 0 ∨ e.due = .zero ∨ s.agent.pull s.track e.due == Vec3.zero) :
    (⟨step.waypoint, s.track.waypoints⟩ : Track).positionAt e.due ==
      s.track.positionAt e.due := by
  have hmem := takes.mem_ticks event
  have hbehind := h.behind running hmem
  have hposition := (Vec3.isFinite_of_sub hfinite).1
  have hstarts := h.starts_or_still running hmem advance hposition hwhen
  have htime := Duration.add?_eq_some_iff.1 (Integrator.waypoint_time advance)
  -- a step that ends right now takes no time
  have hover : step.waypoint.time ≤ e.due →
      step.waypoint.position == s.track.positionAt e.due := fun hnow => by
    refine Integrator.still_of_instant advance hposition (Duration.ext ?_)
    rw [Duration.le_def] at hnow
    show _ = 0
    omega
  rw [h.positionAt_due running hmem] at hfinite hstarts hover ⊢
  exact Track.positionAt_cons_beq hbehind hfinite hover hstarts

omit [Ranked ε] in
/-- The first step of an agent leads all the way from time zero, whenever it is taken. -/
theorem Poised.positionAt_first {step : MotionStep} (h : Poised wrap position 0 s)
    (running : s.agent.stage = .running) (hlasts : e.due < step.waypoint.time) :
    (⟨step.waypoint, s.track.waypoints⟩ : Track).positionAt e.due =
      Track.between ⟨.zero, position⟩ step.waypoint e.due := by
  obtain ⟨-, first, -⟩ := h.of_running running
  rw [(first rfl).1, Track.positionAt_cons, if_neg (Duration.not_le.2 hlasts)]
  exact if_pos (Nat.zero_le _)

/-- An agent is where it was when it has taken a step, as long as the numbers are finite, unless the
step is its first, comes late and something accelerates the agent. -/
theorem Lives.steady (hwrap : Function.Injective wrap) (h : Lives wrap position n s)
    (pop : s.world.queue.pop = (some e, q)) (event : e.event = wrap .compute)
    (handle : Act.handle wrap .compute (s.withQueue q) = returned r s')
    (hfinite : (s'.track.latest.position - s.track.positionAt e.due).isFinite)
    (hwhen : n ≠ 0 ∨ e.due = .zero ∨ s.agent.pull s.track e.due == Vec3.zero) :
    s'.track.positionAt e.due == s.track.positionAt e.due := by
  have hp := h.poised hwrap
  by_cases running : s.agent.stage = .running
  · have takes := hp.takes_of_pop (by rw [running]; exact nofun) pop
    obtain ⟨step, advance, rfl⟩ := hp.steers running takes event handle
    exact hp.positionAt_steered running takes event advance hfinite hwhen
  · have hidle : (s.withQueue q).agent.stage ≠ .running := running
    rw [Act.handle_idle hidle] at handle
    cases r <;> cases handle
    exact Vec3.beq_self (Vec3.isFinite_of_sub hfinite).2

end Steady

/-! ## An agent that starts late -/

namespace Late

/-- Agents that have the queue to themselves put their duties on it as they are. -/
abbrev wrap : Duty → Duty := id

/-- A world at 1.501 seconds in which nothing is to happen. -/
def world : World Duty where
  queue := { EventQueue.empty with clock := { nanos := 1501000000 } }
  network := Network.ofLink .usual
  telemetry := .recorder {}
  journal := Journal.ofThreshold none

theorem wellFormed_world : world.queue.WellFormed where
  ordered := trivial
  distinct := List.nodup_nil
  held id h := by simp [world, EventQueue.isPending, EventQueue.empty] at h
  fresh e he := by simp [world, EventQueue.empty, Heap.toList] at he
  ahead e he := by simp [world, EventQueue.empty, Heap.toList] at he

/-- A follower that starts in that world, by what it has heard of its leader. -/
structure Starter (s : Scene Duty) : Prop where
  lives : Lives wrap Vec3.zero 0 s
  running : s.agent.stage = .running
  queue : s.world.queue = world.queue.scheduleAll
    [(world.clock, .broadcast), (world.clock, .compute)]
  id : s.agent.id = .ofOctets 10 1 1 2
  settings : s.agent.settings = .usual
  sent : s.agent.sent = Tally.empty
  velocity : s.agent.velocity = Vec3.zero
  track : s.track = Track.restingAt Vec3.zero

/-- Its broadcast is followed by its first step at the same time. -/
theorem Starter.exists_step {s : Scene Duty} {step : MotionStep} (h : Starter s)
    (hadvance : s.agent.advance s.track world.clock = some step) : ∃ s₁ e q s',
    Lives wrap Vec3.zero 0 s₁ ∧ s₁.world.queue.pop = (some e, q) ∧ e.event = wrap .compute ∧
      Act.handle wrap .compute (s₁.withQueue q) = returned (.ok ()) s' ∧ e.due = world.clock ∧
      s₁.track = s.track ∧ s₁.agent.pull s.track world.clock = s.agent.pull s.track world.clock ∧
      s'.track = ⟨step.waypoint, s.track.waypoints⟩ := by
  have hwf : s.world.queue.WellFormed := by
    rw [h.queue]
    exact wellFormed_world.scheduleAll
  have hlive : s.world.queue.live.Perm (world.queue.newEntries
      [(world.clock, .broadcast), (world.clock, .compute)]) := by
    rw [h.queue]
    exact wellFormed_world.live_scheduleAll.trans (.of_eq rfl)
  have hstop : s.world.queue.stopTime = none := by
    rw [h.queue, EventQueue.stopTime_scheduleAll]
    rfl
  obtain ⟨q₁, hpop, takes, hleft⟩ := hwf.exists_pop hstop hlive (by decide)
  obtain ⟨sent, hsent⟩ : ∃ sent, s.agent.sent.incrementAll s.agent.audience = .ok sent := by
    rw [Agent.audience, h.settings, h.id, h.sent]
    exact ⟨_, rfl⟩
  have hnext : q₁.clock.add? s.agent.settings.packetInterval =
      some { nanos := 3001000000 } := by
    rw [takes.clock, h.settings]
    rfl
  have hlives := h.lives.announces hpop rfl h.running hsent hnext
  let s₁ := Act.announced (s.withQueue q₁) wrap sent { nanos := 3001000000 }
  have hlive₁ : s₁.world.queue.live.Perm
      [⟨world.clock, 1, 1, .compute⟩, q₁.newEntry { nanos := 3001000000 } .broadcast] :=
    ((takes.wellFormed.live_scheduleAt _ _).trans (hleft.cons _)).trans (.swap _ _ [])
  have hstop₁ : s₁.world.queue.stopTime = none := takes.stopTime.trans hstop
  have hfirst : ∀ x ∈ [q₁.newEntry { nanos := 3001000000 } Duty.broadcast],
      x.before ⟨world.clock, 1, 1, .compute⟩ = false := by
    intro x hx
    rw [List.mem_singleton.1 hx, EventQueue.newEntry, takes.clock]
    rfl
  have hwf₁ : s₁.world.queue.WellFormed := takes.wellFormed.scheduleAt _ _
  obtain ⟨q₂, hpop₂, takes₂, -⟩ := hwf₁.exists_pop hstop₁ hlive₁ hfirst
  have hclock : q₂.clock = world.clock := takes₂.clock
  have hadvance₁ : s₁.agent.advance s₁.track q₂.clock = some step := by
    rw [hclock]
    exact hadvance
  have hstep := hlives.steers Function.injective_id hpop₂ rfl h.running hadvance₁
  exact ⟨s₁, _, q₂, _, hlives, hpop₂, rfl, hstep, rfl, rfl, rfl, rfl⟩

/-- A follower that has not started. -/
def follower : Scene Duty where
  agent := Agent.create (.ofOctets 10 1 1 2) .follower .usual
  track := .restingAt Vec3.zero
  world := world

/-- The follower right after its start. -/
def started (network : Network) : Scene Duty := Act.begun follower wrap network

theorem starter_started {network : Network}
    (bind : world.network.bind (.ofOctets 10 1 1 2) = .ok network) : Starter (started network) where
  lives := (Lives.created _ _ _ wellFormed_world fun _ => rfl).begins Function.injective_id rfl bind
  running := rfl
  queue := rfl
  id := rfl
  settings := rfl
  sent := rfl
  velocity := rfl
  track := rfl

/-- Its leader, ten metres off. -/
def leader : Beacon := ⟨⟨10.0, 0.0, 0.0⟩, .leader⟩

/-- The follower once it has heard its leader. -/
def informed (network : Network) : Scene Duty :=
  Act.heard (started network) ⟨⟨[(.ofOctets 10 1 1 1, 1)], by decide, by decide⟩⟩
    ⟨.ofOctets 10 1 1 2, ⟨[(.ofOctets 10 1 1 1, leader)], by decide, by decide⟩⟩

theorem starter_informed {network : Network}
    (bind : world.network.bind (.ofOctets 10 1 1 2) = .ok network) :
    Starter (informed network) where
  lives := by
    refine (starter_started bind).lives.hears (r := .ok true) (.ofOctets 10 1 1 1) leader.encode ?_
    exact Act.receive_eq rfl (show Address.ofOctets 10 1 1 1 ≠ .ofOctets 10 1 1 2 by decide)
      leader.decode_encode rfl rfl
  running := rfl
  queue := rfl
  id := rfl
  settings := rfl
  sent := rfl
  velocity := rfl
  track := rfl

theorem exists_network : ∃ network, world.network.bind (.ofOctets 10 1 1 2) = .ok network :=
  Network.exists_bind_of_empty rfl (by decide)

/-- Its first step takes 10 ms, and leads it from the origin as far as it is pulled. -/
theorem Starter.exists_advance {s : Scene Duty} (h : Starter s) : ∃ step,
    s.agent.advance s.track world.clock = some step ∧
      step.waypoint = ⟨{ nanos := 1511000000 }, Vec3.zero + (Vec3.zero +
        s.agent.pull (.restingAt Vec3.zero) world.clock * Duration.toSeconds { nanos := 10000000 }) *
          Duration.toSeconds { nanos := 10000000 }⟩ := by
  have hstep : s.agent.settings.integrator.step = { nanos := 10000000 } := by
    rw [h.settings]
    rfl
  have hadd : world.clock.add? s.agent.settings.integrator.step = some { nanos := 1511000000 } := by
    rw [hstep]
    exact Duration.add?_eq_some_iff.2 (by decide)
  cases hadvance : s.agent.advance s.track world.clock with
  | none => exact absurd (hadd.symm.trans (Integrator.advance_eq_none_iff.1 hadvance)) nofun
  | some step =>
    have htime := Option.some.inj ((Integrator.waypoint_time hadvance).symm.trans hadd)
    have hposition := Integrator.waypoint_position hadvance
    rw [hstep, h.velocity, h.track] at hposition
    refine ⟨step, rfl, ?_⟩
    rw [← htime, Agent.pull]
    exact congrArg (Waypoint.mk _) hposition

/-- A follower that starts after the run and has heard its leader before its first step jumps. -/
theorem jumps : ∃ s e q s', Lives wrap Vec3.zero 0 s ∧ s.world.queue.pop = (some e, q) ∧
    e.event = wrap .compute ∧ Act.handle wrap .compute (s.withQueue q) = returned (.ok ()) s' ∧
    (s'.track.latest.position - s.track.positionAt e.due).isFinite ∧
    (s'.track.positionAt e.due == s.track.positionAt e.due) = false := by
  obtain ⟨network, bind⟩ := exists_network
  obtain ⟨step, hstep, hwaypoint⟩ := (starter_informed bind).exists_advance
  have hpull : (informed network).agent.pull (.restingAt Vec3.zero) world.clock =
      ⟨10.0, 0.0, 0.0⟩ := by
    show AgentSettings.usual.integrator.acceleration (Forces.acting .follower
      ((Track.restingAt Vec3.zero).positionAt world.clock) [(.ofOctets 10 1 1 1, leader)]) = _
    refine (Vec3.mk.injEq ..).mpr ⟨?_, ?_, ?_⟩ <;> decide +kernel
  obtain ⟨s, e, q, s', lives, pop, event, handle, due, track, -, track'⟩ :=
    (starter_informed bind).exists_step hstep
  have hresting : (informed network).track = .restingAt Vec3.zero := rfl
  refine ⟨s, e, q, s', lives, pop, event, handle, ?_, ?_⟩ <;>
    rw [due, track, track', hresting, hwaypoint, hpull]
  · decide +kernel
  · decide +kernel

/-- A follower that has heard nobody before its first step stays. -/
theorem steady_alone : ∃ s e q s', Lives wrap Vec3.zero 0 s ∧ s.world.queue.pop = (some e, q) ∧
    e.event = wrap .compute ∧ Act.handle wrap .compute (s.withQueue q) = returned (.ok ()) s' ∧
    (s'.track.latest.position - s.track.positionAt e.due).isFinite ∧ e.due ≠ .zero ∧
    s.agent.pull s.track e.due == Vec3.zero ∧
    s'.track.positionAt e.due == s.track.positionAt e.due := by
  obtain ⟨network, bind⟩ := exists_network
  obtain ⟨step, hstep, hwaypoint⟩ := (starter_started bind).exists_advance
  have hpull : (started network).agent.pull (.restingAt Vec3.zero) world.clock =
      AgentSettings.usual.integrator.acceleration Forces.none := rfl
  have settings := (starter_started bind).settings
  have hcalm : (started network).agent.pull (.restingAt Vec3.zero) world.clock == Vec3.zero :=
    Agent.pull_of_calm (.inr rfl) (by rw [settings]; decide +kernel)
      (by rw [settings]; decide +kernel) _ _
  obtain ⟨s, e, q, s', lives, pop, event, handle, due, track, pull, track'⟩ :=
    (starter_started bind).exists_step hstep
  have hresting : (started network).track = .restingAt Vec3.zero := rfl
  rw [hresting] at track track' pull
  have hfinite : (s'.track.latest.position - s.track.positionAt e.due).isFinite := by
    rw [due, track, track', hwaypoint, hpull]
    decide +kernel
  have hcalm' : s.agent.pull s.track e.due == Vec3.zero := by
    rw [due, track, pull]
    exact hcalm
  exact ⟨s, e, q, s', lives, pop, event, handle, hfinite, by rw [due]; exact nofun, hcalm',
    lives.steady Function.injective_id pop event handle hfinite (.inr (.inr hcalm'))⟩

end Late

end SwarmFlight
