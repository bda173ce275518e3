import SwarmFlight.Agent.Actions
import SwarmFlight.Proofs.Network
import SwarmFlight.Proofs.Queue.Live
import SwarmFlight.Proofs.Run.Returns

/-!
# What the acts of an agent do

Most acts leave an agent the `Part` it has in the run : its address, role, stage of life and
settings. Such an act `Keeps` the scene but for some events that it schedules and some
datagrams that it sends. Two acts change the part. A `start` makes the agent run and binds
its address (`start_returns`), and a `turn` makes it a leader (`turn_eq`). What an agent does
at its end is `stop_eq`.

None of the acts breaks down unless a time that it reckons is out of range.
-/

namespace SwarmFlight

/-- A time step breaks off only if its end is out of range. -/
theorem Integrator.advance_eq_none_iff {i : Integrator} {velocity position : Vec3}
    {forces : Forces} {now : Instant} :
    i.advance velocity forces position now = none ↔ now.add? i.step = none := by
  unfold advance
  cases now.add? i.step with
  | none => exact iff_of_true rfl rfl
  | some t => exact iff_of_false (Option.some_ne_none _) (Option.some_ne_none _)

/-! ## Parts -/

/-- What the rest of a run sees of an agent : who it is and what it is about. -/
structure Part where
  id : Address
  role : Role
  stage : LifeStage
  settings : AgentSettings
  compromised : Bool

/-- The part of an agent. -/
def Agent.part (a : Agent) : Part := ⟨a.id, a.role, a.stage, a.settings, a.compromised⟩

theorem World.bind_eq {ε : Type} (w : World ε) (a : Address) : w.bind a =
    match w.network.bind a with
    | .ok network => .ok ({ w with network }.note (.bound a))
    | .error f => .error f := rfl

@[simp] theorem Slots.get_set (slots : Slots) (duty : Duty) (id : Option EventId) :
    (slots.set duty id).get duty = id := by
  cases duty <;> rfl

namespace Scene

variable {ε : Type} [Ranked ε]

/-- The agent kept its part, and did nothing if it was not running. Some events were scheduled and
at most `sent` datagrams sent. -/
structure Keeps (s : Scene ε) (events : List (Instant × ε)) (sent : Nat) (s' : Scene ε) : Prop where
  part : s'.agent.part = s.agent.part
  idle : s.agent.stage ≠ .running → s'.agent = s.agent
  queue : s'.world.queue = s.world.queue.scheduleAll events
  link : s'.world.network.link = s.world.network.link
  bound : s'.world.network.bound = s.world.network.bound
  refused : s'.world.network.refused = s.world.network.refused
  outbox : s'.world.network.outbox.size ≤ s.world.network.outbox.size + sent

namespace Keeps

variable {s s' s'' : Scene ε} {events events' : List (Instant × ε)} {sent sent' : Nat}

theorem refl (s : Scene ε) : s.Keeps [] 0 s :=
  ⟨rfl, fun _ => rfl, rfl, rfl, rfl, rfl, Nat.le_refl _⟩

theorem stage (h : s.Keeps events sent s') : s'.agent.stage = s.agent.stage :=
  congrArg Part.stage h.part

theorem settings (h : s.Keeps events sent s') : s'.agent.settings = s.agent.settings :=
  congrArg Part.settings h.part

theorem clock (h : s.Keeps events sent s') : s'.world.clock = s.world.clock := by
  rw [World.clock, h.queue, EventQueue.clock_scheduleAll]
  rfl

theorem trans (h : s.Keeps events sent s') (h' : s'.Keeps events' sent' s'') :
    s.Keeps (events ++ events') (sent + sent') s'' where
  part := h'.part.trans h.part
  idle hs := (h'.idle (h.stage ▸ hs)).trans (h.idle hs)
  queue := by rw [h'.queue, h.queue, EventQueue.scheduleAll_append]
  link := h'.link.trans h.link
  bound := h'.bound.trans h.bound
  refused := h'.refused.trans h.refused
  outbox := by
    have := h.outbox
    have := h'.outbox
    omega

theorem le (h : s.Keeps events sent s') (hle : sent ≤ sent') : s.Keeps events sent' s' :=
  { h with outbox := h.outbox.trans (Nat.add_le_add_left hle _) }

end Keeps

end Scene

namespace Act

variable {ε : Type} [Ranked ε] {wrap : Duty → ε} {safe : Prop} {s : Scene ε}

/-! ## Single effects -/

@[simp] theorem bind_apply {σ α β : Type} (x : EStateM Halt σ α) (f : α → EStateM Halt σ β)
    (s : σ) : (x >>= f) s =
      match x s with
      | .ok a s => f a s
      | .error h s => .error h s := by
  show EStateM.bind x f s = _
  unfold EStateM.bind
  cases x s <;> rfl

@[simp] theorem pure_apply {σ α : Type} (a : α) (s : σ) :
    (pure a : EStateM Halt σ α) s = .ok a s := rfl

@[simp] theorem throw_apply {σ α : Type} (h : Halt) (s : σ) :
    (throw h : EStateM Halt σ α) s = .error h s := rfl

@[simp] theorem get_apply {σ : Type} (s : σ) : (get : EStateM Halt σ σ) s = .ok s s := rfl

@[simp] theorem modify_apply {σ : Type} (f : σ → σ) (s : σ) :
    (modify f : EStateM Halt σ PUnit) s = .ok ⟨⟩ (f s) := rfl

@[simp] theorem modifyGet_apply {σ α : Type} (f : σ → α × σ) (s : σ) :
    (modifyGet f : EStateM Halt σ α) s = .ok (f s).1 (f s).2 := rfl

omit [Ranked ε] in
@[simp] theorem fail_apply {α : Type} (f : Failure) :
    (fail f : Act ε α) s = .error (.failure f) s := rfl

omit [Ranked ε] in
@[simp] theorem ofExcept_ok {α : Type} (a : α) : (ofExcept (.ok a) : Act ε α) s = .ok a s := rfl

omit [Ranked ε] in
@[simp] theorem ofExcept_error {α : Type} (f : Failure) :
    (ofExcept (.error f) : Act ε α) s = .error (.failure f) s := rfl

omit [Ranked ε] in
@[simp] theorem agent_apply : agent s = .ok s.agent s := rfl

omit [Ranked ε] in
@[simp] theorem track_apply : track s = .ok s.track s := rfl

omit [Ranked ε] in
@[simp] theorem clock_apply : clock s = .ok s.world.clock s := rfl

omit [Ranked ε] in
@[simp] theorem setAgent_apply (f : Agent → Agent) :
    setAgent f s = .ok () { s with agent := f s.agent } := rfl

omit [Ranked ε] in
@[simp] theorem setWorld_apply (f : World ε → World ε) :
    setWorld f s = .ok () { s with world := f s.world } := rfl

/-! ## Scheduling a duty -/

/-- A scene in which a duty was scheduled. -/
def scheduled (s : Scene ε) (wrap : Duty → ε) (duty : Duty) (t : Instant) : Scene ε :=
  { s with
    agent := { s.agent with slots := s.agent.slots.set duty (some s.world.queue.nextId) }
    world := { s.world with queue := (s.world.queue.scheduleAt t (wrap duty)).2 } }

theorem scheduleDuty_eq {duty : Duty} {delay : Duration} {t : Instant}
    (hslot : s.agent.slots.get duty = none) (ht : s.world.clock.add? delay = some t) :
    scheduleDuty wrap delay duty s = .ok () (scheduled s wrap duty t) := by
  simp only [scheduleDuty, bind_apply, agent_apply, hslot, Option.isSome_none,
    Bool.false_eq_true, if_false, schedule, ht]
  rfl

/-- The scene of a running agent after one of its duties was scheduled. -/
theorem keeps_scheduled {duty : Duty} {t : Instant} (hrun : s.agent.stage = .running) :
    s.Keeps [(t, wrap duty)] 0 (scheduled s wrap duty t) :=
  ⟨rfl, fun h => absurd hrun h, rfl, rfl, rfl, rfl, Nat.le_refl _⟩

/-- A duty is scheduled if the one before it was forgotten and the time is in range. -/
theorem scheduleDuty_schedules {duty : Duty} {delay : Duration}
    (hslot : s.agent.slots.get duty = none)
    (hsafe : safe → s.world.clock.nanos + delay.nanos < durationLimit) :
    Returns safe (fun r s' => r = .ok () ∧ ∃ t, s.world.clock.add? delay = some t ∧
      s' = scheduled s wrap duty t) (scheduleDuty wrap delay duty s) := by
  cases ht : s.world.clock.add? delay with
  | some t =>
    rw [scheduleDuty_eq hslot ht]
    exact ⟨rfl, t, rfl, rfl⟩
  | none =>
    have hnot : ¬ safe := fun hs => by
      obtain ⟨t, ht'⟩ := Option.isSome_iff_exists.1 (Duration.isSome_add?_iff.2 (hsafe hs))
      rw [ht] at ht'
      cases ht'
    simp only [scheduleDuty, bind_apply, agent_apply, hslot, Option.isSome_none,
      Bool.false_eq_true, if_false, schedule, ht]
    exact hnot

theorem scheduleDuty_returns {duty : Duty} {delay : Duration} (hrun : s.agent.stage = .running)
    (hslot : s.agent.slots.get duty = none)
    (hsafe : safe → s.world.clock.nanos + delay.nanos < durationLimit) :
    Returns safe (fun r s' => r = .ok () ∧ s.Keeps [(s.world.clock.later delay, wrap duty)] 0 s')
      (scheduleDuty wrap delay duty s) := by
  refine (scheduleDuty_schedules hslot hsafe).mono ?_
  rintro - - ⟨rfl, t, ht, rfl⟩
  rw [Duration.later_eq ht]
  exact ⟨rfl, keeps_scheduled hrun⟩

/-! ## Sending -/

/-- A running agent may send one datagram, and count it. -/
theorem sendTo_returns (payload : List UInt8) (peer : Address) (hrun : s.agent.stage = .running) :
    Returns safe (fun _ s' => s.Keeps [] 1 s' ∧ s'.agent.slots = s.agent.slots)
      (sendTo payload peer s) := by
  simp only [sendTo, bind_apply, agent_apply, setWorld_apply, setAgent_apply]
  cases Datagram.make s.agent.id peer payload with
  | error f => exact ⟨(Scene.Keeps.refl s).le (Nat.zero_le 1), rfl⟩
  | ok d =>
    have hsent : ∀ a : Agent, a.part = s.agent.part →
        s.Keeps [] 1 { s with agent := a, world := s.world.send d } := fun a ha =>
      ⟨ha, fun h => absurd hrun h, rfl, rfl, rfl, rfl, Nat.le_of_eq (Array.size_push _)⟩
    simp only [ofExcept, pure_apply]
    cases s.agent.sent.increment peer with
    | error f => exact ⟨hsent _ rfl, rfl⟩
    | ok sent => exact ⟨hsent _ rfl, rfl⟩

/-- A running agent sends at most one datagram to each of some addresses. -/
theorem sendFrom_returns (payload : List UInt8) (first n : Nat)
    (hrun : s.agent.stage = .running) :
    Returns safe (fun _ s' => s.Keeps [] n s' ∧ s'.agent.slots = s.agent.slots)
      (sendFrom payload first n s) := by
  induction n generalizing first s with
  | zero => exact ⟨Scene.Keeps.refl s, rfl⟩
  | succ n ih =>
    have hskip : Returns safe (fun _ s' => s.Keeps [] (n + 1) s' ∧ s'.agent.slots = s.agent.slots)
        (sendFrom payload (first + 1) n s) :=
      (ih (first + 1) hrun).mono fun _ _ h => ⟨h.1.le (Nat.le_succ n), h.2⟩
    simp only [sendFrom, bind_apply, agent_apply]
    cases s.agent.settings.baseAddress.offset? first with
    | none => exact hskip
    | some peer =>
      by_cases hne : peer ≠ s.agent.id
      · simp only [if_pos hne]
        refine (sendTo_returns payload peer hrun).bind ?_ ?_
        · rintro - s' ⟨hk, hslots⟩
          refine (ih (first + 1) (hk.stage.trans hrun)).mono fun _ _ h => ⟨?_, h.2.trans hslots⟩
          exact (hk.trans h.1).le (Nat.add_comm 1 n).le
        · rintro - s' ⟨hk, hslots⟩
          exact ⟨hk.le (Nat.le_add_left 1 n), hslots⟩
      · simp only [if_neg hne]
        exact hskip

/-! ## Duties -/

/-- A scene in which the agent forgot about a duty. -/
def cleared (s : Scene ε) (duty : Duty) : Scene ε :=
  { s with agent := { s.agent with slots := s.agent.slots.set duty none } }

omit [Ranked ε] in
@[simp] theorem clearSlot_apply (duty : Duty) : clearSlot duty s = .ok () (cleared s duty) := rfl

omit [Ranked ε] in
@[simp] theorem get_slots_cleared (duty : Duty) :
    (cleared s duty).agent.slots.get duty = none := Slots.get_set _ _ _

/-- A running agent that forgets about a duty keeps its part. -/
theorem keeps_cleared (duty : Duty) (hrun : s.agent.stage = .running) :
    s.Keeps [] 0 (cleared s duty) :=
  ⟨rfl, fun h => absurd hrun h, rfl, rfl, rfl, rfl, Nat.le_refl _⟩

omit [Ranked ε] in
@[simp] theorem note_apply (n : Notice) :
    note n s = .ok () { s with world := s.world.note n } := rfl

theorem keeps_note (n : Notice) : s.Keeps [] 0 { s with world := s.world.note n } :=
  ⟨rfl, fun _ => rfl, rfl, rfl, rfl, rfl, Nat.le_refl _⟩

/-- A duty that repeats was done and scheduled again, or it failed and was not. -/
def Repeats (s : Scene ε) (interval : Duration) (event : ε) (sent : Nat) :
    Except Failure Unit → Scene ε → Prop
  | .ok _, s' => s.Keeps [(s.world.clock.later interval, event)] sent s'
  | .error _, s' => s.Keeps [] sent s'

/-- What was done of a duty so far, and its scheduling at last. -/
theorem repeats_of_keeps {duty : Duty} {interval : Duration} {sent : Nat} {s' : Scene ε}
    (hrun : s.agent.stage = .running) (hk : s.Keeps [] sent s')
    (hslot : s'.agent.slots.get duty = none)
    (hsafe : safe → s.world.clock.nanos + interval.nanos < durationLimit) :
    Returns safe (Repeats s interval (wrap duty) sent) (scheduleDuty wrap interval duty s') := by
  have hclock := hk.clock
  refine (scheduleDuty_returns (hk.stage.trans hrun) hslot ?_).mono ?_
  · rwa [hclock]
  · rintro - s'' ⟨rfl, hk'⟩
    rw [hclock] at hk'
    exact hk.trans hk'

theorem broadcast_eq (s : Scene ε) : broadcast wrap s =
    (sendFrom (s.agent.beacon s.track s.world.clock).encode 0 s.agent.settings.peerCount
      >>= fun _ => note (.broadcast s.agent.id s.world.clock)
      >>= fun _ => scheduleDuty wrap s.agent.settings.packetInterval .broadcast)
      (cleared s .broadcast) := rfl

theorem broadcast_returns (hrun : s.agent.stage = .running)
    (hsafe : safe → s.world.clock.nanos + s.agent.settings.packetInterval.nanos < durationLimit) :
    Returns safe (Repeats s s.agent.settings.packetInterval (wrap .broadcast)
      s.agent.settings.peerCount) (broadcast wrap s) := by
  have hc := keeps_cleared .broadcast hrun
  rw [broadcast_eq]
  refine (sendFrom_returns _ _ _ (hc.stage.trans hrun)).bind ?_ ?_
  · rintro - s' ⟨hk, hslots⟩
    have hslot : s'.agent.slots.get .broadcast = none := by rw [hslots, get_slots_cleared]
    rw [bind_apply, note_apply]
    refine repeats_of_keeps hrun ?_ hslot hsafe
    simpa using (hc.trans hk).trans (keeps_note _)
  · rintro f s' ⟨hk, -⟩
    show s.Keeps [] _ s'
    simpa using hc.trans hk

theorem compute_returns (hrun : s.agent.stage = .running)
    (hsafe : safe →
      s.world.clock.nanos + s.agent.settings.calculateInterval.nanos < durationLimit) :
    Returns safe (Repeats s s.agent.settings.calculateInterval (wrap .compute) 0)
      (compute wrap s) := by
  have hkept : ∀ (a : Agent) (t : Track) (w : World ε), a.part = s.agent.part →
      w.queue = s.world.queue → w.network = s.world.network →
      s.Keeps [] 0 ⟨a, t, w⟩ := fun a t w ha hq hn =>
    ⟨ha, fun h => absurd hrun h, hq, congrArg _ hn, congrArg _ hn, congrArg _ hn,
      (congrArg (·.outbox.size) hn).le⟩
  simp only [compute, bind_apply, clearSlot_apply, clock_apply, agent_apply, track_apply,
    setWorld_apply]
  cases hstep : (cleared s .compute).agent.settings.integrator.advance _ _ _ _ with
  | none =>
    have hnone := Integrator.advance_eq_none_iff.1 hstep
    intro hs
    obtain ⟨t, ht⟩ := Option.isSome_iff_exists.1 (Duration.isSome_add?_iff.2 (hsafe hs))
    exact absurd (hnone.symm.trans ht) (by simp)
  | some step =>
    simp only [bind_apply, setAgent_apply, track_apply]
    cases (cleared s .compute).track.add step.waypoint with
    | error f => exact hkept _ _ _ rfl rfl rfl
    | ok track =>
      refine repeats_of_keeps hrun (hkept _ _ _ rfl rfl rfl) ?_ hsafe
      exact get_slots_cleared .compute

/-- What an agent that turns leaves behind. -/
def turned (s : Scene ε) : Scene ε :=
  let s := cleared s .compromise
  { s with
    agent := { s.agent with role := .leader, compromised := true }
    world := (s.world.reportColor ⟨s.world.clock, s.agent.id, compromisedColor⟩).note
      (.compromised s.agent.id s.world.clock) }

omit [Ranked ε] in
theorem turn_eq (s : Scene ε) : turn s =
    if s.agent.compromised || s.agent.role.isLeader then .ok false (cleared s .compromise)
    else .ok true (turned s) := by
  simp only [turn, bind_apply, clearSlot_apply, agent_apply]
  split
  · rename_i h
    rw [if_pos (by exact h)]
    rfl
  · rename_i h
    rw [if_neg (by exact h)]
    rfl

/-- The time from one tick of a duty that repeats to the next. -/
def interval (s : AgentSettings) : Duty → Duration
  | .broadcast => s.packetInterval
  | .compute => s.calculateInterval
  | .compromise => .zero

/-- How many datagrams a duty may send. -/
def reach (s : AgentSettings) : Duty → Nat
  | .broadcast => s.peerCount
  | _ => 0

/-- A running agent does a duty that repeats; one that is not running does nothing. -/
theorem handle_returns {duty : Duty} (hduty : duty ≠ .compromise)
    (hsafe : safe → s.world.clock.nanos + (interval s.agent.settings duty).nanos < durationLimit) :
    Returns safe (fun r s' => (s.agent.stage ≠ .running ∧ r = .ok () ∧ s.Keeps [] 0 s') ∨
      (s.agent.stage = .running ∧ Repeats s (interval s.agent.settings duty) (wrap duty)
        (reach s.agent.settings duty) r s')) (handle wrap duty s) := by
  by_cases hrun : s.agent.stage = .running
  · simp only [handle, bind_apply, agent_apply, hrun, ne_eq, not_true_eq_false, if_false]
    cases duty with
    | broadcast => exact (broadcast_returns hrun hsafe).mono fun _ _ h => .inr ⟨trivial, h⟩
    | compute => exact (compute_returns hrun hsafe).mono fun _ _ h => .inr ⟨trivial, h⟩
    | compromise => exact absurd rfl hduty
  · simp only [handle, bind_apply, agent_apply, if_pos hrun, note_apply]
    exact .inl ⟨hrun, rfl, keeps_note _⟩

/-! ## Datagrams -/

/-- Taking down a datagram changes nothing but what the agent knows. -/
theorem receive_returns (sender : Address) (payload : List UInt8) :
    Returns safe (fun _ s' => s.Keeps [] 0 s') (receive sender payload s) := by
  simp only [receive, bind_apply, agent_apply]
  by_cases hrun : s.agent.stage = .running
  · have hkept : ∀ a : Agent, a.part = s.agent.part → s.Keeps [] 0 { s with agent := a } :=
      fun a ha => ⟨ha, fun h => absurd hrun h, rfl, rfl, rfl, rfl, Nat.le_refl _⟩
    simp only [hrun, ne_eq, not_true_eq_false, if_false]
    by_cases hown : sender = s.agent.id
    · simp only [if_pos hown, bind_apply, note_apply, pure_apply]
      exact keeps_note _
    · simp only [if_neg hown]
      cases Beacon.decode payload with
      | error f => exact keeps_note _
      | ok beacon =>
        simp only [bind_apply, setAgent_apply]
        cases s.agent.received.increment sender with
        | error f => exact Scene.Keeps.refl s
        | ok received =>
          simp only [ofExcept_ok]
          cases s.agent.table.update sender beacon with
          | error f => exact hkept _ rfl
          | ok table => exact hkept _ rfl
  · simp only [if_pos hrun, bind_apply, note_apply, pure_apply]
    exact keeps_note _

/-! ## Start and stop -/

/-- The duties that an agent schedules when it starts, with their times. -/
def firstDuties (a : Agent) (now : Instant) : List (Instant × Duty) :=
  [(now, .broadcast), (now, .compute)] ++
    match a.settings.compromiseAt with
    | some due => if a.role.isLeader then [] else [(now.max due, .compromise)]
    | none => []

/-- An agent that had not started is running, with its address bound and its first duties
scheduled. -/
structure Starts (wrap : Duty → ε) (s s' : Scene ε) : Prop where
  fresh : s.agent.stage = .uninitialized
  part : s'.agent.part = { s.agent.part with stage := .running }
  queue : s'.world.queue = s.world.queue.scheduleAll
    ((firstDuties s.agent s.world.clock).map fun x => (x.1, wrap x.2))
  bind : s.world.network.bind s.agent.id = .ok s'.world.network

/-- The slots of an agent that has just scheduled its first duties. -/
def firstSlots (a : Agent) (next : EventId) : Slots where
  broadcast := some next
  compute := some (next + 1)
  compromise := if a.settings.compromiseAt.isSome && !a.role.isLeader then some (next + 2) else none

/-- What a start does last : it schedules the first duties. -/
def scheduleFirst (wrap : Duty → ε) (a : Agent) (now : Instant) : Act ε Unit := do
  scheduleDuty wrap .zero .broadcast
  scheduleDuty wrap .zero .compute
  match a.settings.compromiseAt with
  | some due => if !a.role.isLeader then scheduleDuty wrap (now.timeTo due) .compromise
  | none => pure ()
  note (.started a.id a.role now)

/-- The first duties are scheduled if none is yet, whatever the clock shows. -/
theorem scheduleFirst_eq (a : Agent) (hslots : s.agent.slots = {}) :
    scheduleFirst wrap a s.world.clock s = .ok () { s with
      agent := { s.agent with slots := firstSlots a s.world.queue.nextId }
      world := { s.world.note (.started a.id a.role s.world.clock) with
        queue := s.world.queue.scheduleAll
          ((firstDuties a s.world.clock).map fun x => (x.1, wrap x.2)) } } := by
  have hb : s.agent.slots.get .broadcast = none := by rw [hslots]; rfl
  have hc : (scheduled s wrap .broadcast s.world.clock).agent.slots.get .compute = none := by
    simp only [scheduled, hslots]
    rfl
  have hm : (scheduled (scheduled s wrap .broadcast s.world.clock) wrap .compute
      s.world.clock).agent.slots.get .compromise = none := by
    simp only [scheduled, hslots]
    rfl
  have hzero := Duration.add?_zero s.world.clock
  have hrest : s.agent.slots.compromise = none := by rw [hslots]
  simp only [scheduleFirst, bind_apply, scheduleDuty_eq hb hzero, scheduleDuty_eq hc hzero,
    firstDuties, firstSlots]
  cases a.settings.compromiseAt with
  | none =>
    simp only [note_apply, scheduled, Slots.set, hrest]
    rfl
  | some due =>
    cases a.role with
    | leader =>
      simp only [Role.isLeader, scheduled, Slots.set, hrest]
      rfl
    | follower =>
      simp only [Role.isLeader, Bool.not_false, if_true, bind_apply,
        scheduleDuty_eq hm (Duration.add?_timeTo s.world.clock due)]
      rfl

/-- The scene after a start, with the address bound. -/
def begun (s : Scene ε) (wrap : Duty → ε) (network : Network) : Scene ε :=
  let a := s.agent
  let now := s.world.clock
  let told := s.world.note (.bound a.id)
  let told := if a.role.isLeader then told.reportColor ⟨now, a.id, leaderColor⟩ else told
  { agent := { a with stage := .running, slots := firstSlots a s.world.queue.nextId }
    track := s.track
    world := { told.note (.started a.id a.role now) with
      network
      queue := s.world.queue.scheduleAll ((firstDuties a now).map fun x => (x.1, wrap x.2)) } }

/-- An agent starts whenever its address can be bound. -/
theorem start_eq {network : Network} (hfresh : s.agent.stage = .uninitialized)
    (hslots : s.agent.slots = {}) (hbind : s.world.network.bind s.agent.id = .ok network) :
    start wrap s = .ok () (begun s wrap network) := by
  let a : Agent := { s.agent with stage := .running }
  let w : World ε := { s.world with network }.note (.bound a.id)
  simp only [start, bind_apply, agent_apply, hfresh, ne_eq, not_true_eq_false, if_false,
    get_apply, World.bind_eq, hbind, ofExcept_ok, setWorld_apply, setAgent_apply, clock_apply,
    begun]
  split
  · exact scheduleFirst_eq (s := ⟨a, s.track, w.reportColor ⟨w.clock, a.id, leaderColor⟩⟩)
      s.agent hslots
  · exact scheduleFirst_eq (s := ⟨a, s.track, w⟩) s.agent hslots

/-- What comes of a start. It fails if the agent has started before or its address cannot be bound,
and then it leaves everything as it was. -/
def StartEnds (wrap : Duty → ε) (s : Scene ε) : Except Failure Unit → Scene ε → Prop
  | .ok _, s' => Starts wrap s s'
  | .error f, s' => s' = s ∧
    (s.agent.stage = .uninitialized → s.world.network.bind s.agent.id = .error f)

theorem start_returns (hslots : s.agent.stage = .uninitialized → s.agent.slots = {}) :
    Returns safe (StartEnds wrap s) (start wrap s) := by
  by_cases hstage : s.agent.stage = .uninitialized
  · cases hbind : s.world.network.bind s.agent.id with
    | ok network =>
      rw [start_eq hstage (hslots hstage) hbind]
      exact ⟨hstage, rfl, rfl, hbind⟩
    | error f =>
      simp only [start, bind_apply, agent_apply, hstage, ne_eq, not_true_eq_false, if_false,
        get_apply, World.bind_eq, hbind]
      exact ⟨rfl, fun _ => hbind⟩
  · simp only [start, bind_apply, agent_apply, if_pos hstage]
    exact ⟨rfl, fun h => absurd h hstage⟩

/-- The scene that a running agent leaves when it stops. -/
def stopped (s : Scene ε) : Scene ε :=
  { s with
    agent := { s.agent with slots := {}, stage := .stopped }
    world := ((s.agent.slots.toList.foldl World.cancel s.world).close s.agent.id).noteAll
      (farewell s.agent) }

omit [Ranked ε] in
theorem stop_eq (hrun : s.agent.stage = .running) : stop s = .ok () (stopped s) := by
  simp only [stop, bind_apply, agent_apply, hrun, ne_eq, not_true_eq_false, if_false]
  rfl

omit [Ranked ε] in
/-- Calling events off changes nothing but the queue. -/
theorem cancelAll_eq (w : World ε) (ids : List EventId) : ids.foldl World.cancel w =
    { w with queue := ids.foldl (fun q id => (q.cancel id).2) w.queue } := by
  induction ids generalizing w with
  | nil => rfl
  | cons id rest ih => exact ih (w.cancel id)

omit [Ranked ε] in
/-- An agent that stops touches the queue, its endpoint and the journal. -/
theorem world_stopped (s : Scene ε) : ∃ queue bound journal, (stopped s).world = { s.world with
    queue, journal, network := { s.world.network with bound } } := by
  simp only [stopped, World.close, cancelAll_eq]
  split <;> exact ⟨_, _, _, rfl⟩

omit [Ranked ε] in
/-- A drained queue stays drained when an agent stops. -/
theorem drained_stopped {q : EventQueue ε} (h : q.Drained s.world.queue) :
    q.Drained (stopped s).world.queue := by
  have hclose : ∀ (w : World ε) (a : Address), (w.close a).queue = w.queue := by
    intro w a
    unfold World.close
    split <;> rfl
  show q.Drained (World.close _ _).queue
  rw [hclose, cancelAll_eq]
  dsimp only
  generalize s.world.queue = q' at h
  induction s.agent.slots.toList generalizing q' with
  | nil => exact h
  | cons id rest ih => exact ih _ (h.cancel id)

omit [Ranked ε] in
/-- An agent that stops gives up its address and no other. -/
theorem isBound_stopped (a : Address) : (stopped s).world.network.isBound a ↔
    a ≠ s.agent.id ∧ s.world.network.isBound a := by
  show (World.close _ _).network.isBound a ↔ _
  unfold World.close
  rw [cancelAll_eq]
  split
  · exact Registry.contains_erase _ _ _
  · rename_i h
    exact ⟨fun ha => ⟨fun hid => h (hid ▸ ha), ha⟩, And.right⟩

end Act

end SwarmFlight
