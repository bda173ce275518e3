import SwarmFlight.Proofs.Run.Strays

/-!
# What a duty that fails leaves behind

A running agent fails in its broadcast if its tally has no room for a peer, and in its step if its
track lies ahead of the end of the step. `Act.Fails` says what has been done by then, and
`Act.handle_eq_error_iff` that nothing else makes a duty fail. Neither is undone : the
datagrams up to that peer are on their way, or the agent has its new velocity, and in either
case the agent has forgotten about its tick and put no other one on the queue.

So a duty that fails leaves a scene `Intact` only if it is a step that did not change the velocity
and another tick of it happens to be pending (`Act.Fails.intact_iff`). `Act.setbacks` puts this
together with the condition under which no duty fails (`Scene.Unhindered`).
-/

namespace SwarmFlight

variable {ε : Type}

namespace Scene

/-- A tick of a duty is pending. -/
def Ticks (s : Scene ε) (wrap : Duty → ε) (duty : Duty) : Prop :=
  ∃ e ∈ s.world.queue.live, e.event = wrap duty

/-- Nothing that lasts has come of a duty, and it still has a tick to come. -/
structure Intact (wrap : Duty → ε) (duty : Duty) (s s' : Scene ε) : Prop where
  velocity : s'.agent.velocity = s.agent.velocity
  sent : s'.agent.sent = s.agent.sent
  network : s'.world.network = s.world.network
  track : s'.track = s.track
  ticks : s'.Ticks wrap duty

/-- Nothing gets in the way of a duty : there is room to count all that the agent sends, and its
track does not lie ahead of the end of its step. -/
def Unhindered (s : Scene ε) : Duty → Prop
  | .broadcast => (s.agent.sent.counts.keys ++ s.agent.audience).toFinset.card ≤ swarmLimit
  | .compute => ∀ step, s.agent.advance s.track s.world.clock = some step →
      s.track.latest.time ≤ step.waypoint.time
  | .compromise => True

end Scene

namespace Act

/-! ## Scenes -/

/-- The scene after a broadcast that broke off when `n` peers had been counted. -/
def cutShort (s : Scene ε) (sent : Tally) (n : Nat) : Scene ε :=
  sending (cleared s .broadcast) sent ((s.agent.mail s.track s.world.clock).take (n + 1))

/-- The scene after a step whose waypoint the track did not take. -/
def stalled (s : Scene ε) (step : MotionStep) : Scene ε :=
  let position := s.track.positionAt s.world.clock
  let peers := s.agent.table.snapshot
  { agent := { (cleared s .compute).agent with velocity := step.velocity }
    track := s.track
    world := s.world.noteAll ((Forces.skipped s.agent.role position peers).map skipNotice) }

/-- How an agent fails in a duty, and the scene that it leaves. -/
inductive Fails (s : Scene ε) : Duty → Failure → Scene ε → Prop
  | broadcast {counted rest : List Address} {peer : Address} {sent : Tally}
    (audience : s.agent.audience = counted ++ peer :: rest)
    (counts : s.agent.sent.incrementAll counted = .ok sent)
    (full : sent.increment peer = .error .swarmSizeExceeded) :
    Fails s .broadcast .swarmSizeExceeded (cutShort s sent counted.length)
  | compute {step : MotionStep} (advance : s.agent.advance s.track s.world.clock = some step)
    (late : step.waypoint.time < s.track.latest.time) :
    Fails s .compute (.waypointOutOfOrder step.waypoint.time) (stalled s step)

variable {s s' : Scene ε} {duty : Duty} {f : Failure}

/-! ## How duties fail -/

theorem sendTo_apply {payload : List UInt8} {peer : Address}
    (hlength : payload.length ≤ maxDatagramSize) : sendTo payload peer s =
      match s.agent.sent.increment peer with
      | .ok sent => .ok () (sending s sent [⟨s.agent.id, peer, payload⟩])
      | .error f => .error (.failure f) (sending s s.agent.sent [⟨s.agent.id, peer, payload⟩]) := by
  simp only [sendTo, bind_apply, agent_apply, setWorld_apply, setAgent_apply, Datagram.make,
    if_pos hlength, ofExcept_ok, sending, Network.sendAll_cons, Network.sendAll_nil]
  cases s.agent.sent.increment peer <;> rfl

/-- Sending breaks off at the first peer that there is no room to count, when its datagram is on
its way. -/
theorem sendFrom_overflows {payload : List UInt8} {first n : Nat} {counted rest : List Address}
    {peer : Address} {sent : Tally} (hlength : payload.length ≤ maxDatagramSize)
    (haudience : ((List.range' first n).filterMap s.agent.settings.baseAddress.offset?).filter
      (· ≠ s.agent.id) = counted ++ peer :: rest)
    (hcounts : s.agent.sent.incrementAll counted = .ok sent)
    (hfull : sent.increment peer = .error .swarmSizeExceeded) :
    sendFrom payload first n s = .error (.failure .swarmSizeExceeded)
      (sending s sent ((counted ++ [peer]).map fun p => ⟨s.agent.id, p, payload⟩)) := by
  induction n generalizing s first counted with
  | zero => simp at haudience
  | succ n ih =>
    simp only [sendFrom, bind_apply, agent_apply]
    rw [List.range'_succ] at haudience
    cases hp : s.agent.settings.baseAddress.offset? first with
    | none =>
      rw [List.filterMap_cons_none hp] at haudience
      exact ih haudience hcounts
    | some p =>
      rw [List.filterMap_cons_some hp] at haudience
      by_cases hne : p ≠ s.agent.id
      · rw [List.filter_cons_of_pos (by simpa using hne)] at haudience
        simp only [if_pos hne, bind_apply, sendTo_apply hlength]
        cases counted with
        | nil =>
          obtain ⟨rfl, -⟩ := List.cons.inj haudience
          cases hcounts
          rw [hfull]
          rfl
        | cons c counted =>
          obtain ⟨rfl, htail⟩ := List.cons.inj haudience
          obtain ⟨t, ht, hcounts⟩ := Tally.incrementAll_cons hcounts
          rw [ht]
          refine (ih (s := sending s t [⟨s.agent.id, p, payload⟩]) htail hcounts).trans ?_
          simp only [sending, Network.sendAll_cons, Network.sendAll_nil, List.cons_append,
            List.map_cons]
      · rw [List.filter_cons_of_neg (by simpa using hne)] at haudience
        simp only [if_neg hne]
        exact ih haudience hcounts

theorem length_beacon_le (a : Agent) (track : Track) (now : Instant) :
    (a.beacon track now).encode.length ≤ maxDatagramSize := by
  rw [Beacon.length_encode]
  decide

/-- The start of the mail of an agent. -/
theorem take_mail {a : Agent} (track : Track) (now : Instant) {counted rest : List Address}
    {peer : Address} (h : a.audience = counted ++ peer :: rest) :
    (a.mail track now).take (counted.length + 1) =
      (counted ++ [peer]).map fun p => ⟨a.id, p, (a.beacon track now).encode⟩ := by
  rw [Agent.mail, h, ← List.map_take, List.take_length_add_append]
  rfl

variable [Ranked ε] {wrap : Duty → ε}

theorem broadcast_cutShort {counted rest : List Address} {peer : Address} {sent : Tally}
    (haudience : s.agent.audience = counted ++ peer :: rest)
    (hcounts : s.agent.sent.incrementAll counted = .ok sent)
    (hfull : sent.increment peer = .error .swarmSizeExceeded) :
    broadcast wrap s =
      .error (.failure .swarmSizeExceeded) (cutShort s sent counted.length) := by
  have hlength := length_beacon_le s.agent s.track s.world.clock
  have hmail := take_mail s.track s.world.clock haudience
  rw [Agent.audience, AgentSettings.peers, List.range_eq_range'] at haudience
  have hsending := sendFrom_overflows (s := cleared s .broadcast) hlength haudience hcounts hfull
  rw [broadcast_eq, bind_apply, hsending, cutShort, hmail]
  rfl

theorem compute_stalled {step : MotionStep}
    (hadvance : s.agent.advance s.track s.world.clock = some step)
    (hlate : step.waypoint.time < s.track.latest.time) :
    compute wrap s = .error (.failure (.waypointOutOfOrder step.waypoint.time))
      (stalled s step) := by
  have hadd : s.track.add step.waypoint = .error (.waypointOutOfOrder step.waypoint.time) :=
    if_pos hlate
  simp only [compute, bind_apply, clearSlot_apply, clock_apply, agent_apply, track_apply,
    setWorld_apply]
  cases hstep : (cleared s .compute).agent.settings.integrator.advance _ _ _ _ with
  | none => exact absurd (hstep.symm.trans hadvance) (by simp)
  | some step' =>
    cases hstep.symm.trans hadvance
    simp only [bind_apply, setAgent_apply, track_apply,
      show (cleared s .compute).track = s.track from rfl, hadd, ofExcept_error]
    rfl

/-- A duty fails in one of these ways, or not at all. -/
theorem handle_eq_error_iff (hrun : s.agent.stage = .running) :
    handle wrap duty s = .error (.failure f) s' ↔ Fails s duty f s' := by
  constructor
  · intro h
    cases duty with
    | broadcast =>
      rw [handle_broadcast hrun] at h
      cases hcounts : s.agent.sent.incrementAll s.agent.audience with
      | ok sent =>
        have hreturns := @broadcast_announces ε _ wrap False s sent hcounts False.elim
        rw [h] at hreturns
        cases hreturns.1
      | error g =>
        obtain ⟨counted, peer, rest, sent, haudience, hcounted, hfull⟩ :=
          Tally.exists_of_incrementAll_error hcounts
        obtain rfl := Tally.eq_of_increment_error hfull
        rw [broadcast_cutShort haudience hcounted hfull] at h
        cases h
        exact .broadcast haudience hcounted hfull
    | compute =>
      rw [handle_compute hrun] at h
      by_cases hahead : s.Unhindered .compute
      · have hreturns := @compute_steers_of_le ε _ wrap False s hahead False.elim
        rw [h] at hreturns
        cases hreturns.1
      · simp only [Scene.Unhindered, not_forall] at hahead
        obtain ⟨step, hadvance, hlate⟩ := hahead
        have hlate := Duration.not_le.1 hlate
        rw [compute_stalled hadvance hlate] at h
        cases h
        exact .compute hadvance hlate
    | compromise =>
      rw [handle_compromise hrun] at h
      cases h
  · intro h
    cases h with
    | broadcast haudience hcounts hfull =>
      exact (handle_broadcast hrun).trans (broadcast_cutShort haudience hcounts hfull)
    | compute hadvance hlate =>
      exact (handle_compute hrun).trans (compute_stalled hadvance hlate)

omit [Ranked ε] in
/-- A duty fails exactly if something gets in its way. -/
theorem exists_fails_iff : (∃ f s', Fails s duty f s') ↔ ¬ s.Unhindered duty := by
  constructor
  · rintro ⟨f, s', h⟩ hfree
    cases h with
    | @broadcast counted rest peer sent haudience hcounts hfull =>
      obtain ⟨t, ht⟩ := Tally.exists_incrementAll_iff.2 hfree
      have hsplit : s.agent.sent.incrementAll (counted ++ peer :: rest) =
          .error .swarmSizeExceeded := by
        have hrest : sent.incrementAll (peer :: rest) = .error .swarmSizeExceeded := by
          rw [Tally.incrementAll, List.foldlM_cons, hfull]
          rfl
        rw [Tally.incrementAll, List.foldlM_append] at *
        rw [hcounts]
        exact hrest
      rw [haudience, hsplit] at ht
      cases ht
    | compute hadvance hlate => exact Duration.not_le.2 hlate (hfree _ hadvance)
  · intro hfree
    cases duty with
    | broadcast =>
      cases hcounts : s.agent.sent.incrementAll s.agent.audience with
      | ok sent => exact absurd (Tally.exists_incrementAll_iff.1 ⟨sent, hcounts⟩) hfree
      | error g =>
        obtain ⟨counted, peer, rest, sent, haudience, hcounted, hfull⟩ :=
          Tally.exists_of_incrementAll_error hcounts
        obtain rfl := Tally.eq_of_increment_error hfull
        exact ⟨_, _, .broadcast haudience hcounted hfull⟩
    | compute =>
      simp only [Scene.Unhindered, not_forall] at hfree
      obtain ⟨step, hadvance, hlate⟩ := hfree
      exact ⟨_, _, .compute hadvance (Duration.not_le.1 hlate)⟩
    | compromise => exact absurd trivial hfree

/-! ## What is left -/

/-- A duty that succeeds is on the queue again. -/
theorem ticks_of_handle (hrun : s.agent.stage = .running) (hduty : duty ≠ .compromise)
    (h : handle wrap duty s = .ok () s') : s'.Ticks wrap duty := by
  have hreturns := @handle_returns ε _ wrap False s duty hduty False.elim
  rw [h] at hreturns
  obtain ⟨hidle, -⟩ | ⟨-, hrepeats⟩ := hreturns
  · exact absurd hrun hidle
  · have hkeeps : s.Keeps [(s.world.clock.later (interval s.agent.settings duty), wrap duty)]
        (reach s.agent.settings duty) s' := hrepeats
    have hqueue : s'.world.queue = (s.world.queue.scheduleAt _ (wrap duty)).2 := hkeeps.queue
    refine ⟨s.world.queue.newEntry (s.world.clock.later (interval s.agent.settings duty))
      (wrap duty), ?_, rfl⟩
    rw [hqueue, EventQueue.mem_live, EventQueue.isPending_scheduleAt]
    refine ⟨(EventQueue.toList_scheduleAt _ _).mem_iff.2 List.mem_cons_self, ?_⟩
    rw [Bool.or_eq_true, beq_iff_eq]
    exact .inl rfl

omit [Ranked ε] in
/-- A duty that fails is forgotten, and no other tick of it is put on the queue. -/
theorem Fails.forgets (h : Fails s duty f s') : s'.agent.slots = s.agent.slots.set duty none ∧
    s'.world.queue = s.world.queue ∧ s'.track = s.track := by
  cases h <;> exact ⟨rfl, rfl, rfl⟩

omit [Ranked ε] in
/-- A broadcast that fails has sent something. -/
theorem sent_cutShort {counted rest : List Address} {peer : Address} (sent : Tally)
    (haudience : s.agent.audience = counted ++ peer :: rest) :
    (cutShort s sent counted.length).world.network.stats.sent =
      s.world.network.stats.sent + (counted.length + 1) := by
  show s.world.network.stats.sent + ((s.agent.mail _ _).take _).length = _
  rw [take_mail _ _ haudience, List.length_map, List.length_append]
  rfl

omit [Ranked ε] in
/-- What a duty has done by the time it fails is undone only if it is a step that did not change the
velocity, and it has a tick to come only if there was another one. -/
theorem Fails.intact_iff (h : Fails s duty f s') : s.Intact wrap duty s' ↔
    duty = .compute ∧ s'.agent.velocity = s.agent.velocity ∧ s.Ticks wrap duty := by
  cases h with
  | @broadcast counted rest peer sent haudience hcounts hfull =>
    refine iff_of_false (fun hintact => ?_) nofun
    have hsent := sent_cutShort sent haudience
    rw [hintact.network] at hsent
    omega
  | compute hadvance hlate =>
    exact ⟨fun hintact => ⟨rfl, hintact.velocity, hintact.ticks⟩,
      fun ⟨_, hvelocity, hticks⟩ => ⟨hvelocity, rfl, rfl, rfl, hticks⟩⟩

/-- A running agent fails in its broadcast or its step exactly if something gets in the way, in one
of two ways, and a duty that succeeds is on the queue again. Each failure leaves the scene intact
exactly if nothing gets in the way, or if it is a step that does not change the velocity and has
another tick to come. -/
theorem setbacks (hrun : s.agent.stage = .running) (hduty : duty ≠ .compromise) :
    ((∃ f s', handle wrap duty s = .error (.failure f) s') ↔ ¬ s.Unhindered duty) ∧
    (∀ f s', handle wrap duty s = .error (.failure f) s' ↔ Fails s duty f s') ∧
    (∀ s', handle wrap duty s = .ok () s' → s'.Ticks wrap duty) ∧
    ((∀ f s', handle wrap duty s = .error (.failure f) s' → s.Intact wrap duty s') ↔
      s.Unhindered duty ∨ duty = .compute ∧ s.Ticks wrap duty ∧
        ∀ step, s.agent.advance s.track s.world.clock = some step →
          step.velocity = s.agent.velocity) := by
  have hfails : ∀ f s', handle wrap duty s = .error (.failure f) s' ↔ Fails s duty f s' :=
    fun f s' => handle_eq_error_iff hrun
  refine ⟨?_, hfails, fun s' => ticks_of_handle hrun hduty, ?_⟩
  · rw [← exists_fails_iff]
    exact exists_congr fun f => exists_congr fun s' => hfails f s'
  · simp only [hfails]
    constructor
    · intro hintact
      by_cases hfree : s.Unhindered duty
      · exact .inl hfree
      · obtain ⟨f, s', hfail⟩ := exists_fails_iff.2 hfree
        obtain ⟨rfl, hvelocity, hticks⟩ := hfail.intact_iff.1 (hintact f s' hfail)
        refine .inr ⟨rfl, hticks, fun step hstep => ?_⟩
        cases hfail with
        | compute hadvance hlate =>
          cases hstep.symm.trans hadvance
          exact hvelocity
    · rintro (hfree | ⟨rfl, hticks, hsame⟩) f s' hfail
      · exact absurd hfree (exists_fails_iff.1 ⟨f, s', hfail⟩)
      · refine hfail.intact_iff.2 ⟨rfl, ?_, hticks⟩
        cases hfail with
        | compute hadvance hlate => exact hsame _ hadvance

end Act

/-! ## A swarm that is too large to count -/

namespace Crowd

/-- A follower in a swarm of 130, in a world in which nothing is to happen. -/
def fresh : Scene Duty :=
  { Lone.fresh with
    agent := .create (.ofOctets 10 1 1 1) .follower { AgentSettings.usual with agentCount := 130 } }

/-- The follower after its start, when its first broadcast was taken out of the queue. -/
def due (network : Network) (queue : EventQueue Duty) : Scene Duty :=
  (Act.begun fresh id network).withQueue queue

theorem exists_due : ∃ network q, Act.start id fresh = .ok () (Act.begun fresh id network) ∧
    (Act.begun fresh id network).world.queue.Takes ⟨.zero, 1, 0, Duty.broadcast⟩ q ∧
    q.live.Perm [⟨.zero, 1, 1, Duty.compute⟩] := by
  obtain ⟨network, bind⟩ : ∃ network, fresh.world.network.bind fresh.agent.id = .ok network :=
    Network.exists_bind_of_empty rfl (by decide)
  obtain ⟨q, takes, hrest⟩ := Lone.exists_pop_begun (s := fresh) rfl rfl network
  exact ⟨network, q, Act.start_eq rfl rfl bind, takes, hrest⟩

/-- There are 129 others. -/
theorem card_audience : fresh.agent.audience.toFinset.card = 129 := by
  decide +kernel

theorem not_unhindered (network : Network) (q : EventQueue Duty) :
    ¬ (due network q).Unhindered .broadcast := by
  have hkeys : (due network q).agent.sent.counts.keys = [] := rfl
  have haudience : (due network q).agent.audience = fresh.agent.audience := rfl
  rw [Scene.Unhindered, hkeys, haudience, List.nil_append, card_audience]
  decide

/-- Its first broadcast fails. -/
theorem broadcast_fails : ∃ network q, Act.start id fresh = .ok () (Act.begun fresh id network) ∧
    (Act.begun fresh id network).world.queue.Takes ⟨.zero, 1, 0, Duty.broadcast⟩ q ∧
    ∃ f s', Act.handle id .broadcast (due network q) = .error (.failure f) s' := by
  obtain ⟨network, q, start, takes, -⟩ := exists_due
  exact ⟨network, q, start, takes,
    (Act.setbacks (s := due network q) rfl (by decide)).1.2 (not_unhindered network q)⟩

/-- When its first broadcast has failed, datagrams are on their way, and it never broadcasts
again. -/
theorem broadcast_leaves_marks : ∃ network q s',
    Act.start id fresh = .ok () (Act.begun fresh id network) ∧
    (Act.begun fresh id network).world.queue.Takes ⟨.zero, 1, 0, Duty.broadcast⟩ q ∧
    Act.handle id .broadcast (due network q) = .error (.failure .swarmSizeExceeded) s' ∧
    (due network q).world.network.stats.sent < s'.world.network.stats.sent ∧
    ¬ s'.Ticks id .broadcast ∧ ¬ (due network q).Intact id .broadcast s' := by
  obtain ⟨network, q, start, takes, hrest⟩ := exists_due
  obtain ⟨f, s', hfails⟩ := Act.exists_fails_iff.2 (not_unhindered network q)
  have hticks : ¬ s'.Ticks id .broadcast := by
    rintro ⟨e, he, hevent⟩
    rw [hfails.forgets.2.1] at he
    rw [List.mem_singleton.1 (hrest.mem_iff.1 he)] at hevent
    cases hevent
  cases hfails with
  | broadcast haudience hcounts hfull =>
    refine ⟨network, q, _, start, takes, (Act.handle_eq_error_iff rfl).2
      (.broadcast haudience hcounts hfull), ?_, hticks, fun hintact => hticks hintact.ticks⟩
    rw [Act.sent_cutShort _ haudience]
    omega

end Crowd

end SwarmFlight
