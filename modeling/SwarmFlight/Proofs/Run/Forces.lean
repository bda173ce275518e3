import SwarmFlight.Proofs.Run.Deaf

/-!
# Forces that are felt

The forces on a follower are two sums, one over the leaders and one over the followers that exert
a force on it, each in the order of the table (`Forces.acting_follower`). A peer without a distance
to go by is `Silent` and stands in neither. So lists that differ in silent peers only, wherever
they are and whatever they say, come to the same forces (`Alike.acting_eq`), and an agent with one
table takes the step that it takes with the other (`Act.compute_parallel`).

Nothing is checked when a beacon is received, so the peers that stay silent are all that keeps a
payload of no use away from the motion of an agent (`silent_unfelt`).
-/

namespace SwarmFlight

namespace Forces

variable {position : Vec3} {peers peers' : List (Address × Beacon)} {peer : Address × Beacon}
  {role : Role} {d : Float}

/-! ## Who exerts a force -/

theorem exerts_eq_false_iff : exerts d = false ↔ d.isNaN ∨ d.isInf ∨ d < minDistance := by
  have hfinite : d.isFinite = false ↔ d.isNaN ∨ d.isInf := by
    unfold Float.isFinite Float.isNaN Float.isInf Float.Model.isFinite Float.Model.isNaN
      Float.Model.isInf
    cases d.toModel.unpack with
    | infinity => exact iff_of_true rfl (.inr rfl)
    | notANumber => exact iff_of_true rfl (.inl rfl)
    | zero => exact iff_of_false nofun (Or.rec nofun nofun)
    | finite => exact iff_of_false nofun (Or.rec nofun nofun)
  rw [exerts, Bool.and_eq_false_iff, hfinite, Bool.not_eq_false', decide_eq_true_eq, or_assoc]

/-- A peer whose distance is not a number, infinite or too small. -/
def Silent (position : Vec3) (peer : Address × Beacon) : Prop :=
  (position.distanceTo peer.2.position).isNaN ∨ (position.distanceTo peer.2.position).isInf ∨
    position.distanceTo peer.2.position < minDistance

/-- The force of one peer : a leader draws as strongly as it is far away, and a follower pushes as
strongly as it is near. -/
def exerted (position : Vec3) (peer : Beacon) : Vec3 :=
  let offset := peer.position - position
  let direction := offset / offset.length
  match peer.role with
  | .leader => direction * offset.length
  | .follower => -direction * (1.0 / offset.length)

/-- The forces of the peers of one role, in the order of the list. -/
def felt (role : Role) (position : Vec3) (peers : List (Address × Beacon)) : List Vec3 :=
  (peers.filter fun peer =>
    exerts (position.distanceTo peer.2.position) ∧ peer.2.role = role).map fun peer =>
      exerted position peer.2

theorem felt_cons_of_silent (h : Silent position peer) :
    felt role position (peer :: peers) = felt role position peers := by
  have hnot : exerts (position.distanceTo peer.2.position) = false := exerts_eq_false_iff.2 h
  rw [felt, List.filter_cons_of_neg (by simp [hnot])]
  rfl

theorem felt_append : felt role position (peers ++ peers') =
    felt role position peers ++ felt role position peers' := by
  rw [felt, List.filter_append, List.map_append]
  rfl

/-- What the peers of the other role do is of no account. -/
theorem felt_filter : felt role position (peers.filter (·.2.role = role)) =
    felt role position peers := by
  rw [felt, felt, List.filter_filter]
  congr 2
  funext peer
  simp only [Bool.decide_and, Bool.and_assoc, Bool.and_self]

/-! ## Sums -/

/-- A peer adds to the sum of its role, if it exerts a force, and leaves the other one as it is. -/
theorem addPeer_eq (forces : Forces) (peer : Beacon) : addPeer position forces peer =
    if exerts (position.distanceTo peer.position) then
      match peer.role with
      | .leader => { forces with attraction := forces.attraction + exerted position peer }
      | .follower => { forces with repulsion := forces.repulsion + exerted position peer }
    else forces := by
  obtain ⟨place, role⟩ := peer
  cases role <;> rfl

theorem foldl_addPeer (forces : Forces) :
    peers.foldl (fun forces peer => addPeer position forces peer.2) forces =
      ⟨(felt .leader position peers).foldl (· + ·) forces.attraction,
        (felt .follower position peers).foldl (· + ·) forces.repulsion⟩ := by
  induction peers generalizing forces with
  | nil => rfl
  | cons peer rest ih =>
    rw [List.foldl_cons, ih, addPeer_eq]
    obtain ⟨a, place, role⟩ := peer
    cases hexerts : exerts (position.distanceTo place) <;> cases role <;> simp [felt, hexerts]

/-- The forces on a follower : the pulls of the leaders and the pushes of the followers, each summed
in the order of the list. -/
theorem acting_follower (position : Vec3) (peers : List (Address × Beacon)) :
    acting .follower position peers =
      ⟨(felt .leader position peers).foldl (· + ·) Vec3.zero,
        (felt .follower position peers).foldl (· + ·) Vec3.zero⟩ := foldl_addPeer none

/-! ## Silent peers -/

/-- Two lists that differ in silent peers only : either has some of its own, anywhere in it. -/
inductive Alike (position : Vec3) : List (Address × Beacon) → List (Address × Beacon) → Prop
  | nil : Alike position [] []
  | both {l l' : List (Address × Beacon)} (peer : Address × Beacon) (rest : Alike position l l') :
    Alike position (peer :: l) (peer :: l')
  | left {peer : Address × Beacon} {l l' : List (Address × Beacon)} (silent : Silent position peer)
    (rest : Alike position l l') : Alike position (peer :: l) l'
  | right {peer : Address × Beacon} {l l' : List (Address × Beacon)} (silent : Silent position peer)
    (rest : Alike position l l') : Alike position l (peer :: l')

theorem Alike.felt_eq (h : Alike position peers peers') (role : Role) :
    felt role position peers = felt role position peers' := by
  induction h with
  | nil => rfl
  | @both l l' peer _ ih =>
    rw [← List.singleton_append, felt_append, ih, ← felt_append, List.singleton_append]
  | left silent _ ih => rw [felt_cons_of_silent silent, ih]
  | right silent _ ih => rw [felt_cons_of_silent silent, ih]

/-- Silent peers change nothing of the forces on an agent. -/
theorem Alike.acting_eq (h : Alike position peers peers') (role : Role) :
    acting role position peers = acting role position peers' := by
  cases role with
  | leader => rfl
  | follower => rw [acting_follower, acting_follower, h.felt_eq, h.felt_eq]

end Forces

/-! ## Steps -/

/-- The scene of an agent that knows something else of its peers, and has told something else. -/
def Scene.withTable {ε : Type} (s : Scene ε) (table : PeerTable) (journal : Journal) : Scene ε :=
  { s with agent := { s.agent with table }, world := { s.world with journal } }

/-- Calls that end alike for two agents that differ in what they know and what they tell. -/
structure Act.Parallel {ε : Type} (table : PeerTable)
    (r r' : EStateM.Result Halt (Scene ε) Unit) : Prop where
  outcome : outcome r' = outcome r
  left : ∃ journal, left r' = (left r).withTable table journal

namespace Act

variable {ε : Type} [Ranked ε] {wrap : Duty → ε} {s : Scene ε} {table : PeerTable}
  {journal : Journal}

theorem scheduleDuty_parallel (delay : Duration) (duty : Duty) :
    Parallel table (scheduleDuty wrap delay duty s)
      (scheduleDuty wrap delay duty (s.withTable table journal)) := by
  have hslots : (s.withTable table journal).agent.slots = s.agent.slots := rfl
  have hclock : (s.withTable table journal).world.clock = s.world.clock := rfl
  cases hslot : (s.agent.slots.get duty).isSome with
  | true =>
    simp only [scheduleDuty, bind_apply, agent_apply, hslots, hslot, if_true, throw_apply]
    exact ⟨rfl, _, rfl⟩
  | false =>
    simp only [scheduleDuty, bind_apply, agent_apply, hslots, hslot, Bool.false_eq_true, if_false,
      schedule, hclock]
    cases s.world.clock.add? delay with
    | none => exact ⟨rfl, _, rfl⟩
    | some t => exact ⟨rfl, _, rfl⟩

/-- What an agent does once its step has been reckoned. -/
def proceed (wrap : Duty → ε) : Option MotionStep → Act ε Unit
  | none => throw .clockOverflow
  | some step => do
    let now ← clock
    let a ← agent
    setAgent ({ · with velocity := step.velocity })
    let track ← ofExcept ((← track).add step.waypoint)
    modify ({ · with track })
    note (.steered a.id now step.acceleration)
    scheduleDuty wrap a.settings.calculateInterval .compute

theorem compute_eq (wrap : Duty → ε) (s : Scene ε) : compute wrap s =
    proceed wrap (s.agent.advance s.track s.world.clock)
      { cleared s .compute with
        world := s.world.noteAll ((Forces.skipped s.agent.role
          (s.track.positionAt s.world.clock) s.agent.table.snapshot).map skipNotice) } := by
  simp only [compute, bind_apply, clearSlot_apply, clock_apply, agent_apply, track_apply,
    setWorld_apply]
  cases hstep : (cleared s .compute).agent.settings.integrator.advance _ _ _ _ with
  | none =>
    rw [show s.agent.advance s.track s.world.clock = none from hstep]
    rfl
  | some step =>
    rw [show s.agent.advance s.track s.world.clock = some step from hstep]
    rfl

theorem proceed_parallel (step : Option MotionStep) :
    Parallel table (proceed wrap step s) (proceed wrap step (s.withTable table journal)) := by
  have htrack : (s.withTable table journal).track = s.track := rfl
  cases step with
  | none => exact ⟨rfl, _, rfl⟩
  | some step =>
    simp only [proceed, bind_apply, clock_apply, agent_apply, setAgent_apply, track_apply, htrack]
    cases s.track.add step.waypoint with
    | error f => exact ⟨rfl, _, rfl⟩
    | ok track =>
      simp only [ofExcept_ok, modify_apply, note_apply]
      exact scheduleDuty_parallel _ _

/-- Two agents that know the same but for silent peers take the same step. -/
theorem compute_parallel (wrap : Duty → ε) (journal : Journal)
    (h : Forces.Alike (s.track.positionAt s.world.clock) s.agent.table.snapshot table.snapshot) :
    Parallel table (compute wrap s) (compute wrap (s.withTable table journal)) := by
  have hstep : (s.withTable table journal).agent.advance (s.withTable table journal).track
      (s.withTable table journal).world.clock = s.agent.advance s.track s.world.clock :=
    congrArg (fun forces => s.agent.settings.integrator.advance s.agent.velocity forces
      (s.track.positionAt s.world.clock) s.world.clock) (h.acting_eq s.agent.role).symm
  rw [compute_eq, compute_eq, hstep]
  exact proceed_parallel _

end Act

/-- Peers without a distance to go by are of no account to a follower, whatever they say : any
number of them can be anywhere in a list without a change to the forces that it comes to, and an
agent that knows of others in their stead ends its next step in the same way, with the same velocity
and the same track. Leaders alone attract, and followers alone repel. -/
theorem silent_unfelt (position : Vec3) (peers : List (Address × Beacon)) :
    (∀ peers', Forces.Alike position peers peers' →
      Forces.acting .follower position peers' = Forces.acting .follower position peers) ∧
    (Forces.acting .follower position peers).attraction =
      (Forces.acting .follower position (peers.filter (·.2.role = .leader))).attraction ∧
    (Forces.acting .follower position peers).repulsion =
      (Forces.acting .follower position (peers.filter (·.2.role = .follower))).repulsion ∧
    ∀ {ε : Type} [Ranked ε] (wrap : Duty → ε) (s : Scene ε) (table : PeerTable) (journal : Journal),
      s.agent.table.snapshot = peers → s.track.positionAt s.world.clock = position →
      Forces.Alike position peers table.snapshot →
        outcome (Act.compute wrap (s.withTable table journal)) = outcome (Act.compute wrap s) ∧
        (left (Act.compute wrap (s.withTable table journal))).agent.velocity =
          (left (Act.compute wrap s)).agent.velocity ∧
        (left (Act.compute wrap (s.withTable table journal))).track =
          (left (Act.compute wrap s)).track := by
  refine ⟨fun _ h => (h.acting_eq .follower).symm, ?_, ?_, ?_⟩
  · rw [Forces.acting_follower, Forces.acting_follower, Forces.felt_filter]
  · rw [Forces.acting_follower, Forces.acting_follower, Forces.felt_filter]
  · rintro ε _ wrap s table journal rfl rfl h
    obtain ⟨houtcome, journal', hleft⟩ := Act.compute_parallel wrap journal h
    rw [hleft]
    exact ⟨houtcome, rfl, rfl⟩

/-- A beacon without a position. -/
def nowhere : Address × Beacon := (.ofOctets 10 1 1 3, ⟨⟨0.0 / 0.0, 0.0, 0.0⟩, .follower⟩)

/-- A follower that knows of nobody. -/
def solitary : Scene Duty where
  agent := Agent.create (.ofOctets 10 1 1 2) .follower .usual
  track := Track.restingAt Vec3.zero
  world := .ofLink .usual (.recorder {}) (Journal.ofThreshold none)

theorem silent_unfelt_nowhere :
    Forces.acting .follower Vec3.zero
        [nowhere, (.ofOctets 10 1 1 1, ⟨⟨3.0, 0.0, 0.0⟩, .leader⟩), nowhere] =
      Forces.acting .follower Vec3.zero [(.ofOctets 10 1 1 1, ⟨⟨3.0, 0.0, 0.0⟩, .leader⟩)] ∧
    ∃ table, table.snapshot = [nowhere] ∧
      (left (Act.compute id (solitary.withTable table (Journal.ofThreshold none)))).track =
        (left (Act.compute id solitary)).track := by
  have hsilent : Forces.Silent Vec3.zero nowhere := .inl (by decide +kernel)
  obtain ⟨hforces, -⟩ := silent_unfelt Vec3.zero [(.ofOctets 10 1 1 1, ⟨⟨3.0, 0.0, 0.0⟩, .leader⟩)]
  refine ⟨hforces _ (.right hsilent (.both _ (.right hsilent .nil))), ?_⟩
  obtain ⟨-, -, -, hsteps⟩ := silent_unfelt Vec3.zero []
  obtain ⟨-, -, htrack⟩ := hsteps id solitary
    ⟨.ofOctets 10 1 1 2, ⟨[nowhere], List.nodup_singleton _, by decide⟩⟩ (Journal.ofThreshold none)
    rfl rfl (.right hsilent .nil)
  exact ⟨_, rfl, htrack⟩

end SwarmFlight
