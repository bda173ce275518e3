import SwarmFlight.Proofs.Run.Acts

/-!
# What the acts of an agent come to

In a run nothing gets in the way of an agent : there is room in its tallies and its table,
its duties come when it runs, and its track never lies ahead of the clock. Each act then
leaves one scene : `begun` after a start, `announced` after a broadcast, `steered` after a
step and `heard` after a datagram. Only a time out of range keeps an act from getting there.
-/

namespace SwarmFlight

/-! ## What is sent -/

/-- Every address of the swarm but the agent's own. -/
def Agent.audience (a : Agent) : List Address := a.settings.peers.filter (· ≠ a.id)

/-- The datagrams of one broadcast. -/
def Agent.mail (a : Agent) (track : Track) (now : Instant) : List Datagram :=
  a.audience.map fun peer => ⟨a.id, peer, (a.beacon track now).encode⟩

theorem Agent.length_mail (a : Agent) (track : Track) (now : Instant) :
    (a.mail track now).length = a.audience.length := List.length_map _

/-- A network in which some datagrams were sent. -/
def Network.sendAll (n : Network) (ds : List Datagram) : Network :=
  { n with
    outbox := n.outbox ++ ds.toArray
    stats := { n.stats with sent := n.stats.sent + ds.length } }

theorem Network.sendAll_nil (n : Network) : n.sendAll [] = n := by
  simp [sendAll]

theorem Network.sendAll_cons (n : Network) (d : Datagram) (ds : List Datagram) :
    n.sendAll (d :: ds) = (n.send d).sendAll ds := by
  simp [sendAll, send, Nat.add_assoc, Nat.add_comm 1]

/-- The step that an agent would take. -/
def Agent.advance (a : Agent) (track : Track) (now : Instant) : Option MotionStep :=
  let position := track.positionAt now
  a.settings.integrator.advance a.velocity
    (Forces.acting a.role position a.table.snapshot) position now

/-- A step ends one time step later. -/
theorem Integrator.waypoint_time {i : Integrator} {velocity position : Vec3} {forces : Forces}
    {now : Instant} {step : MotionStep}
    (h : i.advance velocity forces position now = some step) :
    now.add? i.step = some step.waypoint.time := by
  unfold advance at h
  cases ht : now.add? i.step with
  | none =>
    rw [ht] at h
    cases h
  | some t =>
    rw [ht] at h
    cases h
    rfl

namespace Act

variable {ε : Type} [Ranked ε] {wrap : Duty → ε} {safe : Prop} {s : Scene ε}

/-! ## Scenes -/

/-- The scene after some datagrams were sent and counted. -/
def sending (s : Scene ε) (sent : Tally) (ds : List Datagram) : Scene ε :=
  { s with
    agent := { s.agent with sent }
    world := { s.world with network := s.world.network.sendAll ds } }

/-- The scene after a broadcast, with the next one at `next`. -/
def announced (s : Scene ε) (wrap : Duty → ε) (sent : Tally) (next : Instant) : Scene ε :=
  let s' := sending (cleared s .broadcast) sent (s.agent.mail s.track s.world.clock)
  scheduled { s' with world := s'.world.note (.broadcast s.agent.id s.world.clock) } wrap
    .broadcast next

/-- The scene after a step, with the next one at its end. -/
def steered (s : Scene ε) (wrap : Duty → ε) (step : MotionStep) : Scene ε :=
  let peers := s.agent.table.snapshot
  let position := s.track.positionAt s.world.clock
  let world := s.world.noteAll ((Forces.skipped s.agent.role position peers).map skipNotice)
  let s' := cleared s .compute
  scheduled
    { agent := { s'.agent with velocity := step.velocity }
      track := ⟨step.waypoint, s.track.waypoints⟩
      world := world.note (.steered s.agent.id s.world.clock step.acceleration) }
    wrap .compute step.waypoint.time

omit [Ranked ε] in
/-- The scene after a beacon was accepted. -/
def heard (s : Scene ε) (received : Tally) (table : PeerTable) : Scene ε :=
  { s with agent := { s.agent with received, table } }

/-! ## Broadcasts -/

omit [Ranked ε] in
/-- Datagrams go to some addresses of the swarm if there is room to count them. -/
theorem sendFrom_eq {payload : List UInt8} {first n : Nat} {sent : Tally}
    (hlength : payload.length ≤ maxDatagramSize)
    (hsent : s.agent.sent.incrementAll (((List.range' first n).filterMap
      s.agent.settings.baseAddress.offset?).filter (· ≠ s.agent.id)) = .ok sent) :
    sendFrom payload first n s = .ok () (sending s sent
      ((((List.range' first n).filterMap s.agent.settings.baseAddress.offset?).filter
        (· ≠ s.agent.id)).map fun peer => ⟨s.agent.id, peer, payload⟩)) := by
  induction n generalizing s first with
  | zero =>
    cases hsent
    simp [sendFrom, sending, Network.sendAll_nil]
  | succ n ih =>
    simp only [sendFrom, bind_apply, agent_apply]
    rw [List.range'_succ] at hsent ⊢
    cases hpeer : s.agent.settings.baseAddress.offset? first with
    | none =>
      rw [List.filterMap_cons_none hpeer] at hsent ⊢
      exact ih hsent
    | some peer =>
      rw [List.filterMap_cons_some hpeer] at hsent ⊢
      by_cases hne : peer ≠ s.agent.id
      · rw [List.filter_cons_of_pos (by simpa using hne)] at hsent ⊢
        obtain ⟨t, ht, hsent⟩ := Tally.incrementAll_cons hsent
        simp only [if_pos hne, sendTo, bind_apply, agent_apply, setWorld_apply, setAgent_apply,
          Datagram.make, if_pos hlength, ofExcept_ok, ht]
        rw [ih (by exact hsent), List.map_cons]
        simp only [sending, Network.sendAll_cons]
        rfl
      · rw [List.filter_cons_of_neg (by simpa using hne)] at hsent ⊢
        simp only [if_neg hne]
        exact ih hsent

theorem broadcast_announces {sent : Tally}
    (hsent : s.agent.sent.incrementAll s.agent.audience = .ok sent)
    (hsafe : safe → s.world.clock.nanos + s.agent.settings.packetInterval.nanos < durationLimit) :
    Returns safe (fun r s' => r = .ok () ∧ ∃ next,
      s.world.clock.add? s.agent.settings.packetInterval = some next ∧
      s' = announced s wrap sent next) (broadcast wrap s) := by
  have hlength : (s.agent.beacon s.track s.world.clock).encode.length ≤ maxDatagramSize := by
    rw [Beacon.length_encode]
    decide
  rw [Agent.audience, AgentSettings.peers, List.range_eq_range'] at hsent
  have hsending : sendFrom (s.agent.beacon s.track s.world.clock).encode 0
      s.agent.settings.peerCount (cleared s .broadcast) = .ok () (sending (cleared s .broadcast)
        sent (s.agent.mail s.track s.world.clock)) := by
    refine (sendFrom_eq (s := cleared s .broadcast) hlength hsent).trans ?_
    rw [Agent.mail, Agent.audience, AgentSettings.peers, List.range_eq_range']
    rfl
  simp only [broadcast_eq, bind_apply, hsending, note_apply]
  exact scheduleDuty_schedules rfl hsafe

/-! ## Steps -/

/-- An agent takes its step if its track does not lie ahead of the end of the step. -/
theorem compute_steers_of_le
    (hahead : ∀ step, s.agent.advance s.track s.world.clock = some step →
      s.track.latest.time ≤ step.waypoint.time)
    (hsafe : safe →
      s.world.clock.nanos + s.agent.settings.calculateInterval.nanos < durationLimit) :
    Returns safe (fun r s' => r = .ok () ∧ ∃ step,
      s.agent.advance s.track s.world.clock = some step ∧ s' = steered s wrap step)
      (compute wrap s) := by
  simp only [compute, bind_apply, clearSlot_apply, clock_apply, agent_apply, track_apply,
    setWorld_apply]
  cases hstep : (cleared s .compute).agent.settings.integrator.advance _ _ _ _ with
  | none =>
    have hnone := Integrator.advance_eq_none_iff.1 hstep
    intro hs
    obtain ⟨t, ht⟩ := Option.isSome_iff_exists.1 (Duration.isSome_add?_iff.2 (hsafe hs))
    exact absurd (hnone.symm.trans ht) (by simp)
  | some step =>
    have htime := Integrator.waypoint_time hstep
    have hadd : s.track.add step.waypoint = .ok ⟨step.waypoint, s.track.waypoints⟩ :=
      if_neg (Duration.not_lt.2 (hahead step hstep))
    simp only [bind_apply, setAgent_apply, track_apply,
      show (cleared s .compute).track = s.track from rfl, hadd, ofExcept_ok, modify_apply,
      note_apply]
    refine (scheduleDuty_schedules ?_ ?_).mono ?_
    · exact get_slots_cleared .compute
    · exact hsafe
    · rintro - - ⟨rfl, t, ht, rfl⟩
      cases htime.symm.trans ht
      exact ⟨rfl, step, hstep, rfl⟩

/-- An agent takes its step if its track has not got ahead of the clock. -/
theorem compute_steers (hbehind : s.track.latest.time ≤ s.world.clock)
    (hsafe : safe →
      s.world.clock.nanos + s.agent.settings.calculateInterval.nanos < durationLimit) :
    Returns safe (fun r s' => r = .ok () ∧ ∃ step,
      s.agent.advance s.track s.world.clock = some step ∧ s' = steered s wrap step)
      (compute wrap s) := by
  refine compute_steers_of_le (fun step hstep => Nat.le_trans hbehind ?_) hsafe
  rw [Duration.add?_eq_some_iff.1 (Integrator.waypoint_time hstep)]
  exact Nat.le_add_right _ _

/-! ## Datagrams -/

omit [Ranked ε] in
/-- The beacon of another agent is accepted if there is room for it. -/
theorem receive_eq {sender : Address} {payload : List UInt8} {beacon : Beacon} {received : Tally}
    {table : PeerTable} (hrun : s.agent.stage = .running) (hother : sender ≠ s.agent.id)
    (hbeacon : Beacon.decode payload = .ok beacon)
    (hreceived : s.agent.received.increment sender = .ok received)
    (htable : s.agent.table.update sender beacon = .ok table) :
    receive sender payload s = .ok true (heard s received table) := by
  simp only [receive, bind_apply, agent_apply, hrun, ne_eq, not_true_eq_false, if_false,
    if_neg hother, hbeacon, hreceived, htable, ofExcept_ok, setAgent_apply, pure_apply, heard]

end Act

end SwarmFlight
