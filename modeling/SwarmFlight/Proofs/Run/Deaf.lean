import SwarmFlight.Proofs.Run.Hearing

/-!
# Leaders are deaf

What a leader does depends on its `Conduct` and the time alone, and not on what it has heard,
on what it has scheduled or on the rest of the world. Two leaders of one conduct that do the
same duty at the same time go through it side by side (`Abreast`), as is shown along the code
of each duty (`Act.handle_abreast`).

A scene is taken through `Happening`s of all sorts, and each duty leaves a `Beat` : how it
ended, the velocity and the track after it, and the datagrams that were sent. The beats of a
leader can be told from its conduct and the times of its duties (`Scene.beats_eq`), so two
leaders of one conduct that do the same at the same times have the same beats, whatever they
hear (`Scene.beats_eq_of_conduct_eq`).
-/

namespace SwarmFlight

variable {ε : Type}

/-! ## How a call ended -/

section Ended

variable {σ α : Type}

/-- The value of a call, or why it has none. -/
def outcome : EStateM.Result Halt σ α → Except Halt α
  | .ok a _ => .ok a
  | .error h _ => .error h

/-- What a call leaves behind, however it ended. -/
def left : EStateM.Result Halt σ α → σ
  | .ok _ s => s
  | .error _ s => s

end Ended

/-! ## Side by side -/

/-- All that the doings of a leader depend on, apart from the time. -/
structure Conduct where
  id : Address
  role : Role
  stage : LifeStage
  settings : AgentSettings
  velocity : Vec3
  sent : Tally
  track : Track

namespace Scene

/-- The conduct of the agent. -/
def conduct (s : Scene ε) : Conduct where
  id := s.agent.id
  role := s.agent.role
  stage := s.agent.stage
  settings := s.agent.settings
  velocity := s.agent.velocity
  sent := s.agent.sent
  track := s.track

/-- The agent is a running leader. -/
structure Leads (s : Scene ε) : Prop where
  running : s.agent.stage = .running
  leader : s.agent.role = .leader

/-- The datagrams sent and not yet collected, in order. -/
def outbox (s : Scene ε) : List Datagram := s.world.network.outbox.toList

end Scene

/-- Two leaders of one conduct, at the same time, that both have a duty on the queue or both have
not. -/
structure Twins (duty : Duty) (s t : Scene ε) : Prop where
  leads : s.Leads
  conduct : s.conduct = t.conduct
  clock : s.world.clock = t.world.clock
  slot : (s.agent.slots.get duty).isSome = (t.agent.slots.get duty).isSome

/-- A call that ended alike in two scenes and sent the same datagrams. -/
inductive Abreast {α : Type} (duty : Duty) (s t : Scene ε) :
    EStateM.Result Halt (Scene ε) α → EStateM.Result Halt (Scene ε) α → Prop
  | ok {s' t' : Scene ε} {ds : List Datagram} (a : α) (twins : Twins duty s' t')
    (sends : s'.outbox = s.outbox ++ ds) (sends' : t'.outbox = t.outbox ++ ds) :
    Abreast duty s t (.ok a s') (.ok a t')
  | error {s' t' : Scene ε} {ds : List Datagram} (e : Halt) (twins : Twins duty s' t')
    (sends : s'.outbox = s.outbox ++ ds) (sends' : t'.outbox = t.outbox ++ ds) :
    Abreast duty s t (.error e s') (.error e t')

namespace Twins

variable {duty : Duty} {s t : Scene ε}

theorem id (h : Twins duty s t) : s.agent.id = t.agent.id := congrArg Conduct.id h.conduct

theorem settings (h : Twins duty s t) : s.agent.settings = t.agent.settings :=
  congrArg Conduct.settings h.conduct

theorem velocity (h : Twins duty s t) : s.agent.velocity = t.agent.velocity :=
  congrArg Conduct.velocity h.conduct

theorem sent (h : Twins duty s t) : s.agent.sent = t.agent.sent := congrArg Conduct.sent h.conduct

theorem track (h : Twins duty s t) : s.track = t.track := congrArg Conduct.track h.conduct

theorem withWorld (h : Twins duty s t) {w w' : World ε} (hw : w.clock = s.world.clock)
    (hw' : w'.clock = t.world.clock) : Twins duty { s with world := w } { t with world := w' } :=
  ⟨⟨h.leads.running, h.leads.leader⟩, h.conduct, hw.trans (h.clock.trans hw'.symm), h.slot⟩

theorem withSent (h : Twins duty s t) (sent : Tally) :
    Twins duty { s with agent := { s.agent with sent } }
      { t with agent := { t.agent with sent } } :=
  ⟨⟨h.leads.running, h.leads.leader⟩, congrArg (fun c : Conduct => { c with sent }) h.conduct,
    h.clock, h.slot⟩

theorem withVelocity (h : Twins duty s t) (velocity : Vec3) :
    Twins duty { s with agent := { s.agent with velocity } }
      { t with agent := { t.agent with velocity } } :=
  ⟨⟨h.leads.running, h.leads.leader⟩, congrArg (fun c : Conduct => { c with velocity }) h.conduct,
    h.clock, h.slot⟩

theorem withTrack (h : Twins duty s t) (track : Track) :
    Twins duty { s with track } { t with track } :=
  ⟨⟨h.leads.running, h.leads.leader⟩, congrArg (fun c : Conduct => { c with track }) h.conduct,
    h.clock, h.slot⟩

/-- Two leaders of one conduct that have both forgotten about a duty. -/
theorem of_cleared (hs : s.Leads) (hconduct : s.conduct = t.conduct)
    (hclock : s.world.clock = t.world.clock) :
    Twins duty (Act.cleared s duty) (Act.cleared t duty) where
  leads := ⟨hs.running, hs.leader⟩
  conduct := hconduct
  clock := hclock
  slot := by rw [Act.get_slots_cleared, Act.get_slots_cleared]

end Twins

namespace Abreast

variable {α β : Type} {duty : Duty} {s t s₁ t₁ : Scene ε}
  {r r' : EStateM.Result Halt (Scene ε) α}

/-- Calls that have sent something before. -/
theorem after (h : Abreast duty s₁ t₁ r r') {ds : List Datagram} (hs : s₁.outbox = s.outbox ++ ds)
    (ht : t₁.outbox = t.outbox ++ ds) : Abreast duty s t r r' := by
  have hjoin : ∀ {u u₁ u' : Scene ε} {ds' : List Datagram}, u₁.outbox = u.outbox ++ ds →
      u'.outbox = u₁.outbox ++ ds' → u'.outbox = u.outbox ++ (ds ++ ds') := by
    intro u u₁ u' ds' h h'
    rw [h', h, List.append_assoc]
  cases h with
  | ok a twins sends sends' => exact .ok a twins (hjoin hs sends) (hjoin ht sends')
  | error e twins sends sends' => exact .error e twins (hjoin hs sends) (hjoin ht sends')

theorem of_cleared (h : Abreast duty (Act.cleared s duty) (Act.cleared t duty) r r') :
    Abreast duty s t r r' :=
  h.after (List.append_nil s.outbox).symm (List.append_nil t.outbox).symm

/-- One part of a call after the other. -/
theorem bind {x y : Act ε α} {f g : α → Act ε β} (hx : Abreast duty s t (x s) (y t))
    (hf : ∀ a s' t', Twins duty s' t' → Abreast duty s' t' (f a s') (g a t')) :
    Abreast duty s t ((x >>= f) s) ((y >>= g) t) := by
  rw [Act.bind_apply, Act.bind_apply]
  generalize x s = r, y t = r' at hx
  cases hx with
  | ok a twins sends sends' => exact (hf a _ _ twins).after sends sends'
  | error e twins sends sends' => exact .error e twins sends sends'

end Abreast

namespace Act

variable {duty : Duty} {s t : Scene ε}

theorem ok_abreast {α : Type} (a : α) {s' t' : Scene ε} (h : Twins duty s' t')
    (hs : s'.outbox = s.outbox) (ht : t'.outbox = t.outbox) :
    Abreast duty s t (.ok a s') (.ok a t') :=
  .ok a h (hs.trans (List.append_nil _).symm) (ht.trans (List.append_nil _).symm)

theorem error_abreast {α : Type} (e : Halt) {s' t' : Scene ε} (h : Twins duty s' t')
    (hs : s'.outbox = s.outbox) (ht : t'.outbox = t.outbox) :
    Abreast (α := α) duty s t (.error e s') (.error e t') :=
  .error e h (hs.trans (List.append_nil _).symm) (ht.trans (List.append_nil _).symm)

theorem note_abreast {n : Notice} (h : Twins duty s t) :
    Abreast duty s t (note n s) (note n t) := ok_abreast () (h.withWorld rfl rfl) rfl rfl

theorem track_abreast (h : Twins duty s t) : Abreast duty s t (track s) (track t) := by
  rw [track_apply, track_apply, ← h.track]
  exact ok_abreast s.track h rfl rfl

theorem setTrack_abreast (track : Track) (h : Twins duty s t) :
    Abreast duty s t ((modify ({ · with track }) : Act ε PUnit) s)
      ((modify ({ · with track }) : Act ε PUnit) t) := by
  rw [modify_apply, modify_apply]
  exact ok_abreast _ (h.withTrack track) rfl rfl

theorem ofExcept_abreast {α : Type} (r : Except Failure α) (h : Twins duty s t) :
    Abreast duty s t (ofExcept r s) (ofExcept r t) := by
  cases r with
  | ok a => exact ok_abreast a h rfl rfl
  | error f => exact error_abreast _ h rfl rfl

theorem outbox_send (s : Scene ε) (d : Datagram) :
    Scene.outbox { s with world := s.world.send d } = s.outbox ++ [d] := Array.toList_push

/-- Both send the same datagram and count it, or neither can. -/
theorem sendTo_abreast (payload : List UInt8) (peer : Address) (h : Twins duty s t) :
    Abreast duty s t (sendTo payload peer s) (sendTo payload peer t) := by
  simp only [sendTo, bind_apply, agent_apply, setWorld_apply, setAgent_apply, ← h.id]
  cases Datagram.make s.agent.id peer payload with
  | error f => exact error_abreast _ h rfl rfl
  | ok d =>
    have hsend : Twins duty { s with world := s.world.send d } { t with world := t.world.send d } :=
      h.withWorld rfl rfl
    simp only [ofExcept, pure_apply, ← h.sent]
    cases s.agent.sent.increment peer with
    | error f => exact .error _ hsend (outbox_send s d) (outbox_send t d)
    | ok sent => exact .ok () (hsend.withSent sent) (outbox_send s d) (outbox_send t d)

theorem sendFrom_abreast (payload : List UInt8) (first n : Nat) (h : Twins duty s t) :
    Abreast duty s t (sendFrom payload first n s) (sendFrom payload first n t) := by
  induction n generalizing first s t with
  | zero => exact ok_abreast () h rfl rfl
  | succ n ih =>
    simp only [sendFrom, bind_apply, agent_apply, ← h.settings, ← h.id]
    cases s.agent.settings.baseAddress.offset? first with
    | none => exact ih (first + 1) h
    | some peer =>
      by_cases hne : peer ≠ s.agent.id
      · simp only [if_pos hne]
        exact (sendTo_abreast payload peer h).bind fun _ _ _ h' => ih (first + 1) h'
      · simp only [if_neg hne]
        exact ih (first + 1) h

variable [Ranked ε] {wrap : Duty → ε}

/-- Both schedule the duty, or neither can. -/
theorem scheduleDuty_abreast (delay : Duration) (h : Twins duty s t) :
    Abreast duty s t (scheduleDuty wrap delay duty s) (scheduleDuty wrap delay duty t) := by
  cases hslot : (s.agent.slots.get duty).isSome with
  | true =>
    simp only [scheduleDuty, bind_apply, agent_apply, hslot, ← h.slot, if_true, throw_apply]
    exact error_abreast _ h rfl rfl
  | false =>
    simp only [scheduleDuty, bind_apply, agent_apply, hslot, ← h.slot, Bool.false_eq_true, if_false,
      schedule, ← h.clock]
    cases s.world.clock.add? delay with
    | none => exact error_abreast _ h rfl rfl
    | some time =>
      have hscheduled : Twins duty (scheduled s wrap duty time) (scheduled t wrap duty time) := by
        refine ⟨⟨h.leads.running, h.leads.leader⟩, h.conduct, h.clock, ?_⟩
        simp only [scheduled, Slots.get_set, Option.isSome_some]
      exact ok_abreast () hscheduled rfl rfl

/-- Both make the same known. -/
theorem broadcast_abreast (hs : s.Leads) (hconduct : s.conduct = t.conduct)
    (hclock : s.world.clock = t.world.clock) :
    Abreast .broadcast s t (broadcast wrap s) (broadcast wrap t) := by
  have h : Twins .broadcast (cleared s .broadcast) (cleared t .broadcast) :=
    .of_cleared hs hconduct hclock
  have hid : s.agent.id = t.agent.id := h.id
  have hrole : s.agent.role = t.agent.role := congrArg Conduct.role hconduct
  have hsettings : s.agent.settings = t.agent.settings := h.settings
  have htrack : s.track = t.track := h.track
  have hbeacon : s.agent.beacon s.track s.world.clock = t.agent.beacon t.track t.world.clock := by
    rw [Agent.beacon, Agent.beacon, htrack, hclock, hrole]
  rw [broadcast_eq, broadcast_eq, ← hbeacon, ← hid, ← hclock, ← hsettings]
  refine Abreast.of_cleared ?_
  exact (sendFrom_abreast _ _ _ h).bind fun _ _ _ h => (note_abreast h).bind fun _ _ _ h =>
    scheduleDuty_abreast _ h

/-- A step under no forces. -/
def drift (wrap : Duty → ε) : Act ε Unit := do
  let now ← clock
  let a ← agent
  match a.settings.integrator.advance a.velocity Forces.none ((← track).positionAt now) now with
  | none => throw .clockOverflow
  | some step =>
    setAgent ({ · with velocity := step.velocity })
    let track ← ofExcept ((← track).add step.waypoint)
    modify ({ · with track })
    note (.steered a.id now step.acceleration)
    scheduleDuty wrap a.settings.calculateInterval .compute

/-- A leader feels nothing, whatever it knows of its peers. -/
theorem compute_of_leader (hleader : s.agent.role = .leader) :
    compute wrap s = drift wrap (cleared s .compute) := by
  have hrole : (cleared s .compute).agent.role = .leader := hleader
  have hforces : ∀ position peers, Forces.acting .leader position peers = Forces.none :=
    fun _ _ => rfl
  have hskipped : ∀ position peers, Forces.skipped .leader position peers = [] := fun _ _ => rfl
  simp only [compute, drift, bind_apply, clearSlot_apply, clock_apply, agent_apply, track_apply,
    setWorld_apply, hrole, hforces, hskipped]
  rfl

theorem drift_abreast (h : Twins .compute s t) :
    Abreast .compute s t (drift wrap s) (drift wrap t) := by
  simp only [drift, bind_apply, clock_apply, agent_apply, track_apply, ← h.id, ← h.settings,
    ← h.velocity, ← h.track, ← h.clock]
  cases s.agent.settings.integrator.advance s.agent.velocity Forces.none
      (s.track.positionAt s.world.clock) s.world.clock with
  | none => exact error_abreast _ h rfl rfl
  | some step =>
    refine Abreast.bind (ok_abreast () (h.withVelocity step.velocity) rfl rfl) fun _ _ _ h => ?_
    refine (track_abreast h).bind fun track _ _ h => ?_
    refine (ofExcept_abreast (track.add step.waypoint) h).bind fun track _ _ h => ?_
    refine (setTrack_abreast track h).bind fun _ _ _ h => ?_
    exact (note_abreast h).bind fun _ _ _ h => scheduleDuty_abreast _ h

/-- Both take the same step. -/
theorem compute_abreast (hs : s.Leads) (hconduct : s.conduct = t.conduct)
    (hclock : s.world.clock = t.world.clock) :
    Abreast .compute s t (compute wrap s) (compute wrap t) := by
  have hrole : s.agent.role = t.agent.role := congrArg Conduct.role hconduct
  rw [compute_of_leader hs.leader, compute_of_leader (hrole.symm.trans hs.leader)]
  exact (drift_abreast (.of_cleared hs hconduct hclock)).of_cleared

/-- Two leaders of one conduct do the same duty side by side. -/
theorem handle_abreast {duty : Duty} (hduty : duty ≠ .compromise) (hs : s.Leads)
    (hconduct : s.conduct = t.conduct) (hclock : s.world.clock = t.world.clock) :
    Abreast duty s t (handle wrap duty s) (handle wrap duty t) := by
  have hrun : t.agent.stage = .running := by
    rw [← show s.agent.stage = t.agent.stage from congrArg Conduct.stage hconduct]
    exact hs.running
  cases duty with
  | broadcast =>
    rw [handle_broadcast hs.running, handle_broadcast hrun]
    exact broadcast_abreast hs hconduct hclock
  | compute =>
    rw [handle_compute hs.running, handle_compute hrun]
    exact compute_abreast hs hconduct hclock
  | compromise => exact absurd rfl hduty

omit [Ranked ε] in
/-- A datagram leaves the conduct of an agent as it is, whatever comes of it. -/
theorem receive_conduct (sender : Address) (payload : List UInt8) :
    (left (receive sender payload s)).conduct = s.conduct := by
  simp only [receive, bind_apply, agent_apply]
  split
  · exact rfl
  · split
    · exact rfl
    · cases Beacon.decode payload with
      | error f => exact rfl
      | ok beacon =>
        simp only [bind_apply, setAgent_apply]
        cases s.agent.received.increment sender with
        | error f => exact rfl
        | ok received =>
          simp only [ofExcept_ok]
          cases s.agent.table.update sender beacon with
          | error f => exact rfl
          | ok table => exact rfl

end Act

/-! ## What leaders do -/

/-- Something that happens to an agent or around it. -/
inductive Happening (ε : Type) where
  /-- The others do something, time passes, and what was sent is collected. -/
  | meanwhile (world : World ε)
  /-- A datagram is delivered. -/
  | hears (sender : Address) (payload : List UInt8)
  /-- One of its duties is due. -/
  | does (duty : Duty)
  /-- The positions before some time are not needed any more. -/
  | prunes (now : Instant)

/-- What a leader was told to do and when. -/
inductive Cue where
  | duty (duty : Duty) (now : Instant)
  | prune (now : Instant)

/-- What came of a cue : how it ended, the velocity and the track after it, and what was sent. -/
structure Beat where
  cue : Cue
  outcome : Except Halt Unit
  velocity : Vec3
  track : Track
  mail : List Datagram

variable [Ranked ε] {wrap : Duty → ε} {s t : Scene ε}

namespace Scene

/-- What comes of a duty that is due now. -/
def beat (s : Scene ε) (wrap : Duty → ε) (duty : Duty) : Beat :=
  let res := Act.handle wrap duty s
  ⟨.duty duty s.world.clock, outcome res, (left res).agent.velocity, (left res).track,
    (left res).outbox.drop s.outbox.length⟩

/-- The scene after something happened, whatever came of it. -/
def after (s : Scene ε) (wrap : Duty → ε) : Happening ε → Scene ε
  | .meanwhile world => { s with world }
  | .hears sender payload => left (Act.receive sender payload s)
  | .does duty => left (Act.handle wrap duty s)
  | .prunes now => { s with track := s.track.prune now }

/-- What is left of something that happens, if it was a cue. Nothing comes of a leader's turning
into one. -/
def beat? (s : Scene ε) (wrap : Duty → ε) : Happening ε → Option Beat
  | .does .broadcast => some (s.beat wrap .broadcast)
  | .does .compute => some (s.beat wrap .compute)
  | .prunes now => some ⟨.prune now, .ok (), s.agent.velocity, s.track.prune now, []⟩
  | _ => none

/-- The beats of an agent, one after the other. -/
def beats (s : Scene ε) (wrap : Duty → ε) : List (Happening ε) → List Beat
  | [] => []
  | x :: rest => (s.beat? wrap x).toList ++ (s.after wrap x).beats wrap rest

omit [Ranked ε] in
theorem Leads.congr (hs : s.Leads) (hconduct : t.conduct = s.conduct) : t.Leads :=
  ⟨(congrArg Conduct.stage hconduct).trans hs.running,
    (congrArg Conduct.role hconduct).trans hs.leader⟩

/-- What is sent in the course of a duty is added to what was there. -/
theorem outbox_after {duty : Duty} (hduty : duty ≠ .compromise) (hs : s.Leads) :
    (s.after wrap (.does duty)).outbox = s.outbox ++ (s.beat wrap duty).mail := by
  have h : Abreast duty s s (Act.handle wrap duty s) (Act.handle wrap duty s) :=
    Act.handle_abreast hduty hs rfl rfl
  simp only [after, beat]
  generalize Act.handle wrap duty s = r at h
  cases h with
  | ok a twins sends => rw [left, sends, List.drop_left]
  | error e twins sends => rw [left, sends, List.drop_left]

/-- Two leaders of one conduct that do a duty at the same time have the same beat, and go on in the
same way. -/
theorem beat_eq {duty : Duty} (hduty : duty ≠ .compromise) (hs : s.Leads)
    (hconduct : s.conduct = t.conduct) (hclock : s.world.clock = t.world.clock) :
    s.beat wrap duty = t.beat wrap duty ∧
      (s.after wrap (.does duty)).conduct = (t.after wrap (.does duty)).conduct ∧
      (s.after wrap (.does duty)).Leads := by
  have h : Abreast duty s t (Act.handle wrap duty s) (Act.handle wrap duty t) :=
    Act.handle_abreast hduty hs hconduct hclock
  simp only [after, beat]
  generalize Act.handle wrap duty s = r, Act.handle wrap duty t = r' at h
  cases h with
  | ok a twins sends sends' =>
    refine ⟨?_, twins.conduct, twins.leads⟩
    simp only [left, outcome, sends, sends', List.drop_left, hclock, twins.velocity, twins.track]
  | error e twins sends sends' =>
    refine ⟨?_, twins.conduct, twins.leads⟩
    simp only [left, outcome, sends, sends', List.drop_left, hclock, twins.velocity, twins.track]

/-- What is no cue leaves the conduct of a leader as it is. -/
theorem conduct_after_of_no_beat {x : Happening ε} (hs : s.Leads) (hx : s.beat? wrap x = none) :
    (s.after wrap x).conduct = s.conduct := by
  cases x with
  | meanwhile world => rfl
  | hears sender payload => exact Act.receive_conduct sender payload
  | prunes now => cases hx
  | does duty =>
    cases duty with
    | broadcast => cases hx
    | compute => cases hx
    | compromise =>
      have hlead : (s.agent.compromised || s.agent.role.isLeader) = true := by
        rw [hs.leader]
        exact Bool.or_true _
      rw [after, Act.handle_compromise hs.running, if_pos hlead]
      rfl

end Scene

namespace Conduct

/-- A leader by itself, with nothing on its queue, that has heard nobody. -/
def scene (c : Conduct) (now : Instant) : Scene ε where
  agent := { Agent.create c.id c.role c.settings with
    stage := c.stage, velocity := c.velocity, sent := c.sent }
  track := c.track
  world := { (World.ofLink .usual .journal (Journal.ofThreshold none) : World ε) with
    queue := { (EventQueue.empty : EventQueue ε) with clock := now } }

/-- What a leader by itself does on a cue, and how it goes on. -/
def answer (c : Conduct) (wrap : Duty → ε) : Cue → Beat × Conduct
  | .duty duty now =>
    let s : Scene ε := c.scene now
    (s.beat wrap duty, (s.after wrap (.does duty)).conduct)
  | .prune now =>
    let track := c.track.prune now
    (⟨.prune now, .ok (), c.velocity, track, []⟩, { c with track })

/-- What a leader by itself does on some cues. -/
def answers (c : Conduct) (wrap : Duty → ε) : List Cue → List Beat
  | [] => []
  | cue :: rest => (c.answer wrap cue).1 :: (c.answer wrap cue).2.answers wrap rest

end Conduct

namespace Scene

/-- A leader does on a cue what it would do by itself. -/
theorem answer_of_beat {x : Happening ε} {b : Beat} (hs : s.Leads) (hx : s.beat? wrap x = some b) :
    s.conduct.answer wrap b.cue = (b, (s.after wrap x).conduct) ∧ (s.after wrap x).Leads := by
  have hduty : ∀ duty, duty ≠ .compromise →
      s.conduct.answer wrap (.duty duty s.world.clock) =
        (s.beat wrap duty, (s.after wrap (.does duty)).conduct) ∧
      (s.after wrap (.does duty)).Leads := by
    intro duty hduty
    let t : Scene ε := s.conduct.scene s.world.clock
    have hconduct : s.conduct = t.conduct := rfl
    have hclock : s.world.clock = t.world.clock := rfl
    obtain ⟨hbeat, hafter, hleads⟩ : s.beat wrap duty = t.beat wrap duty ∧ _ :=
      beat_eq hduty hs hconduct hclock
    exact ⟨Prod.ext hbeat.symm hafter.symm, hleads⟩
  cases x with
  | meanwhile world => cases hx
  | hears sender payload => cases hx
  | prunes now =>
    cases hx
    exact ⟨rfl, ⟨hs.running, hs.leader⟩⟩
  | does duty =>
    cases duty with
    | broadcast =>
      cases hx
      exact hduty .broadcast nofun
    | compute =>
      cases hx
      exact hduty .compute nofun
    | compromise => cases hx

/-- The beats of a leader can be told from its conduct and its cues. -/
theorem beats_eq (hs : s.Leads) (xs : List (Happening ε)) :
    s.beats wrap xs = s.conduct.answers wrap ((s.beats wrap xs).map Beat.cue) := by
  induction xs generalizing s with
  | nil => rfl
  | cons x rest ih =>
    rw [beats]
    cases hx : s.beat? wrap x with
    | none =>
      have hconduct := conduct_after_of_no_beat hs hx
      have hrest := ih (hs.congr hconduct)
      rw [hconduct] at hrest
      exact hrest
    | some b =>
      obtain ⟨hanswer, hleads⟩ := answer_of_beat hs hx
      simp only [Option.toList_some, List.singleton_append, List.map_cons, Conduct.answers, hanswer]
      rw [← ih hleads]

/-- Leaders are deaf : two that agree in their address, settings, velocity, track and counts of
datagrams sent, and that are told to do the same at the same times, have the same velocities and
tracks throughout and send the same datagrams, whatever either has heard and hears. -/
theorem beats_eq_of_conduct_eq (hs : s.Leads) (hconduct : s.conduct = t.conduct)
    (xs ys : List (Happening ε))
    (hcues : (s.beats wrap xs).map Beat.cue = (t.beats wrap ys).map Beat.cue) :
    s.beats wrap xs = t.beats wrap ys := by
  rw [beats_eq hs xs, beats_eq (hs.congr hconduct.symm) ys, hcues, hconduct]

end Scene

namespace Lone

/-- A leader at the start of time. -/
def leader : Scene Duty := Conduct.scene
  { id := .ofOctets 10 1 1 1
    role := .leader
    stage := .running
    settings := .usual
    velocity := Vec3.zero
    sent := Tally.empty
    track := .restingAt Vec3.zero } .zero

/-- A leader that is greeted takes that down and broadcasts what it would have broadcast
otherwise. -/
theorem deaf_to_greeting :
    (leader.after id (.hears (.ofOctets 10 1 1 2) greeting.encode)).agent.table.size = 1 ∧
    leader.beats id [.hears (.ofOctets 10 1 1 2) greeting.encode, .does .broadcast] =
      leader.beats id [.does .broadcast] ∧
    leader.beats id [.does .broadcast] ≠ [] := by
  have hother : Address.ofOctets 10 1 1 2 ≠ .ofOctets 10 1 1 1 := by decide
  have hears := Act.receive_eq (s := leader) rfl hother greeting.decode_encode rfl rfl
  refine ⟨?_, Scene.beats_eq_of_conduct_eq ⟨rfl, rfl⟩ rfl _ _ ?_, List.cons_ne_nil _ _⟩
  · rw [Scene.after, hears]
    rfl
  · show [Cue.duty .broadcast (left (Act.receive _ _ leader)).world.clock] = _
    rw [hears]
    rfl

end Lone

end SwarmFlight
