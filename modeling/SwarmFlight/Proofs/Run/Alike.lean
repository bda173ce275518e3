import SwarmFlight.Proofs.Queue.Alike
import SwarmFlight.Proofs.Run.Course
import SwarmFlight.Proofs.Track

/-!
# Runs that are alike

Two runs are `Alike` if they differ at most in what sampling leaves behind and in what is
refused : in the numbers of events and the slots that hold them, in waypoints that have had
their day, in the positions that were reported, in the journal, and in the random numbers of a
link that loses nothing.

A sample on one side keeps runs alike (`Moves.alike_of_sample`). What comes next apart from
samples is the same event at the same time on both sides, and its effect keeps them alike
(`Moves.alike`). When nothing is left on one side before the stop time, nothing but samples is
left on the other (`Alike.sample_of_closes`).
-/

namespace SwarmFlight

/-- An agent without the numbers of its duties. -/
def Agent.bare (a : Agent) : Agent := { a with slots := {} }

/-- The same agent up to its slots, with the same positions from an instant on. -/
structure Craft.Alike (now : Instant) (c c' : Craft) : Prop where
  agent : c.agent.bare = c'.agent.bare
  track : c.track.Agrees now c'.track

/-- Reports without the positions. -/
def Telemetry.unsampled : Telemetry → Telemetry
  | recorder kept => recorder { kept with positions := #[] }
  | journal => journal

/-- Networks that treat datagrams alike. -/
structure Network.Alike (n n' : Network) : Prop where
  latency : n.link.latency = n'.link.latency
  loss : n.link.loss = n'.link.loss
  draws : n.link.loss ≤ 0.0 ∨ n.generator = n'.generator
  bound : n.bound = n'.bound
  outbox : n.outbox = n'.outbox
  stats : n.stats = n'.stats

/-- Whether an event has an effect on the swarm : all but the samples have one. -/
def Event.matters : Event → Bool
  | .sample => false
  | _ => true

theorem Event.matters_iff {event : Event} : event.matters ↔ event ≠ .sample := by
  cases event <;> simp [matters]

/-! ## Parts of a run -/

theorem Craft.Alike.symm {now : Instant} {c c' : Craft} (h : c.Alike now c') : c'.Alike now c :=
  ⟨h.agent.symm, h.track.symm⟩

theorem Craft.Alike.mono {now now' : Instant} {c c' : Craft} (h : c.Alike now c')
    (hle : now ≤ now') : c.Alike now' c' :=
  ⟨h.agent, h.track.mono hle⟩

/-- Whatever the slots have no part in is the same. -/
theorem Craft.Alike.same {β : Type} {now : Instant} {c c' : Craft} (h : c.Alike now c')
    (f : Agent → β) (hf : ∀ a : Agent, f a.bare = f a) : f c.agent = f c'.agent :=
  (hf _).symm.trans ((congrArg f h.agent).trans (hf _))

/-- Agents that are alike take the same step. -/
theorem Craft.Alike.advance_eq {now : Instant} {c c' : Craft} (h : c.Alike now c') :
    c.agent.advance c.track now = c'.agent.advance c'.track now := by
  have hsame := h.same (Agent.advance · c'.track now) fun _ => rfl
  rw [← hsame]
  simp only [Agent.advance, h.track.position now (Nat.le_refl _)]

namespace Telemetry

theorem unsampled_reportPosition (t : Telemetry) (r : PositionRecord) :
    (t.reportPosition r).1.unsampled = t.unsampled := by
  cases t <;> rfl

theorem unsampled_reportColor (t : Telemetry) (r : ColorRecord) :
    (t.reportColor r).1.unsampled = (t.unsampled.reportColor r).1 := by
  cases t <;> rfl

theorem colors_unsampled (t : Telemetry) : t.unsampled.recording.colors = t.recording.colors := by
  cases t <;> rfl

end Telemetry

namespace Network

variable {n n' m m' : Network}

/-- A link that loses nothing draws no random numbers. -/
theorem sortOut_of_le_zero {loss : Float} (h : loss ≤ 0.0) (g : Generator) (ds : List Datagram) :
    sortOut loss g ds = ⟨ds, [], g⟩ := by
  induction ds with
  | nil => rfl
  | cons d rest ih =>
    simp only [sortOut, Generator.chance, if_pos h, ih, Bool.false_eq_true, if_false]

namespace Alike

theorem symm (h : n.Alike n') : n'.Alike n :=
  ⟨h.latency.symm, h.loss.symm, h.draws.imp (h.loss ▸ ·) Eq.symm, h.bound.symm, h.outbox.symm,
    h.stats.symm⟩

theorem isBound_eq (h : n.Alike n') (a : Address) : n.isBound a = n'.isBound a :=
  congrArg (·.contains a) h.bound

theorem bind (h : n.Alike n') {a : Address} (hm : n.bind a = .ok m) (hm' : n'.bind a = .ok m') :
    m.Alike m' := by
  have hput : ∀ {x y : Network}, x.bind a = .ok y → ∃ bound, x.bound.put? a () = some bound ∧
      y = { x with bound } := by
    intro x y hxy
    unfold Network.bind at hxy
    split at hxy
    · cases hxy
    · split at hxy
      · cases hxy
      · split at hxy
        · cases hxy
          exact ⟨_, ‹_›, rfl⟩
        · cases hxy
  obtain ⟨bound, hbound, rfl⟩ := hput hm
  obtain ⟨bound', hbound', rfl⟩ := hput hm'
  rw [← h.bound, hbound] at hbound'
  exact ⟨h.latency, h.loss, h.draws, Option.some.inj hbound', h.outbox, h.stats⟩

theorem sendAll (h : n.Alike n') (ds : List Datagram) : (n.sendAll ds).Alike (n'.sendAll ds) := by
  refine ⟨h.latency, h.loss, h.draws, h.bound, ?_, ?_⟩
  · simp only [Network.sendAll, h.outbox]
  · simp only [Network.sendAll, h.stats]

/-- What one link loses the other loses as well. -/
theorem collect (h : n.Alike n') :
    n.collect.1.surviving = n'.collect.1.surviving ∧ n.collect.2.Alike n'.collect.2 := by
  simp only [Network.collect, ← h.loss, ← h.outbox]
  rcases h.draws with hloss | hsame
  · simp only [sortOut_of_le_zero hloss]
    exact ⟨trivial, h.latency, h.loss, .inl hloss, h.bound, rfl, by simp only [h.stats]⟩
  · rw [← hsame]
    exact ⟨rfl, h.latency, h.loss, .inr rfl, h.bound, rfl, by simp only [h.stats]⟩

end Alike

end Network

namespace Simulation

open Run

variable {first sim sim₁ sim' sim₁' : Simulation} {event : Event} {i j : Nat} {c c' : Craft}
  {e e' : Entry Event} {q q' : EventQueue Event} {now : Instant}

/-- The same agents, up to their slots and with the same positions from an instant on. -/
structure SameCrew (now : Instant) (sim sim' : Simulation) : Prop where
  length : sim.crafts.length = sim'.crafts.length
  alike : ∀ (i : Nat) (c c' : Craft), sim.crafts[i]? = some c → sim'.crafts[i]? = some c' →
    c.Alike now c'

/-- The same agents in the same circumstances. -/
structure SameSwarm (now : Instant) (sim sim' : Simulation) : Prop where
  crew : SameCrew now sim sim'
  network : sim.world.network.Alike sim'.world.network
  telemetry : sim.world.telemetry.unsampled = sim'.world.telemetry.unsampled
  ledger : sim.ledger = sim'.ledger

/-- Runs that differ at most in what sampling leaves behind, in what is refused and in random
numbers that do not matter. -/
structure Alike (sim sim' : Simulation) : Prop where
  swarm : SameSwarm (sim.world.clock.max sim'.world.clock) sim sim'
  queue : EventQueue.Alike Event.matters sim.world.queue sim'.world.queue
  stopTime : sim.stopTime = sim'.stopTime

theorem SameCrew.symm (h : SameCrew now sim sim') : SameCrew now sim' sim :=
  ⟨h.length.symm, fun i c c' hc hc' => (h.alike i c' c hc' hc).symm⟩

theorem SameCrew.mono {now' : Instant} (h : SameCrew now sim sim') (hle : now ≤ now') :
    SameCrew now' sim sim' :=
  ⟨h.length, fun i c c' hc hc' => (h.alike i c c' hc hc').mono hle⟩

theorem SameCrew.exists_craft (h : SameCrew now sim sim') (hc : sim.crafts[i]? = some c) :
    ∃ c', sim'.crafts[i]? = some c' ∧ c.Alike now c' := by
  have hi : i < sim'.crafts.length := h.length ▸ (List.getElem?_eq_some_iff.1 hc).1
  have hc' := List.getElem?_eq_getElem hi
  exact ⟨_, hc', h.alike i c _ hc hc'⟩

/-- What is the same of agents that are alike is the same of both crews. -/
theorem SameCrew.map_eq {β : Type} {f : Craft → β} (h : SameCrew now sim sim')
    (hf : ∀ c c', c ∈ sim.crafts → c' ∈ sim'.crafts → c.Alike now c' → f c = f c') :
    sim.crafts.map f = sim'.crafts.map f := by
  refine List.ext_getElem? fun i => ?_
  rw [List.getElem?_map, List.getElem?_map]
  cases hc : sim.crafts[i]? with
  | none =>
    have hi : sim'.crafts.length ≤ i := h.length ▸ List.getElem?_eq_none_iff.1 hc
    rw [List.getElem?_eq_none hi]
  | some c =>
    obtain ⟨c', hc', halike⟩ := h.exists_craft hc
    rw [hc', Option.map_some, Option.map_some,
      hf c c' (List.mem_of_getElem? hc) (List.mem_of_getElem? hc') halike]

/-- One agent on each side plays its scene. -/
theorem SameCrew.played (h : SameCrew now sim sim') {s s' : Scene Event}
    (hs : Craft.Alike now ⟨s.agent, s.track⟩ ⟨s'.agent, s'.track⟩) :
    SameCrew now (played sim i s) (played sim' i s') := by
  refine ⟨?_, fun j x x' hx hx' => ?_⟩
  · show (sim.crafts.set i _).length = (sim'.crafts.set i _).length
    rw [List.length_set, List.length_set, h.length]
  · replace hx : (sim.crafts.set i _)[j]? = some x := hx
    replace hx' : (sim'.crafts.set i _)[j]? = some x' := hx'
    rw [List.getElem?_set] at hx hx'
    rw [← h.length] at hx'
    by_cases hj : i = j
    · rw [if_pos hj] at hx hx'
      split at hx
      · rw [if_pos ‹_›] at hx'
        cases hx
        cases hx'
        exact hs
      · cases hx
    · rw [if_neg hj] at hx hx'
      exact h.alike j x x' hx hx'

theorem SameSwarm.symm (h : SameSwarm now sim sim') : SameSwarm now sim' sim :=
  ⟨h.crew.symm, h.network.symm, h.telemetry.symm, h.ledger.symm⟩

theorem SameSwarm.mono {now' : Instant} (h : SameSwarm now sim sim') (hle : now ≤ now') :
    SameSwarm now' sim sim' :=
  ⟨h.crew.mono hle, h.network, h.telemetry, h.ledger⟩

theorem Alike.symm (h : sim.Alike sim') : sim'.Alike sim := by
  have hcomm : sim'.world.clock.max sim.world.clock = sim.world.clock.max sim'.world.clock := by
    rw [Duration.nanos_inj, Duration.nanos_max, Duration.nanos_max]
    exact Nat.max_comm _ _
  exact ⟨hcomm ▸ h.swarm.symm, h.queue.symm, h.stopTime.symm⟩

/-! ## Effects -/

theorem SameCrew.roleFor_eq (h : SameCrew now sim sim') (event : Event) :
    sim.roleFor event = sim'.roleFor event := by
  have hroles := h.map_eq (f := fun c => c.agent.role) fun c c' _ _ halike =>
    halike.same Agent.role fun _ => rfl
  have hrole (i : Nat) := congrArg (·[i]?) hroles
  simp only [List.getElem?_map] at hrole
  cases event with
  | start i => exact hrole i
  | duty i duty => exact hrole i
  | _ => rfl

/-- Runs that are alike at the same time schedule the same after an event. -/
theorem SameCrew.successors_eq (h : SameCrew now sim sim')
    (hclock : sim.world.clock = sim'.world.clock) (hmatters : event.matters) :
    sim.successors event = sim'.successors event := by
  have hnone : ∀ i, sim.crafts[i]? = none → sim'.crafts[i]? = none := fun i hi => by
    rw [List.getElem?_eq_none_iff] at hi ⊢
    exact h.length ▸ hi
  cases event with
  | start i =>
    cases hc : sim.crafts[i]? with
    | none => simp only [successors, hc, hnone i hc]
    | some c =>
      obtain ⟨c', hc', halike⟩ := h.exists_craft hc
      have hduties := halike.same (Act.firstDuties · sim'.world.clock) fun _ => rfl
      simp only [successors, hc, hc', hclock, hduties]
  | duty i duty =>
    cases duty with
    | compromise => rfl
    | _ =>
      cases hc : sim.crafts[i]? with
      | none => simp only [successors, hc, hnone i hc]
      | some c =>
        obtain ⟨c', hc', halike⟩ := h.exists_craft hc
        have hsettings := halike.same Agent.settings fun _ => rfl
        simp only [successors, hc, hc', hclock, hsettings]
  | arrival d => rfl
  | sample => cases hmatters

/-- A datagram that arrives on both sides is counted alike. -/
theorem SameSwarm.arrived (h : SameSwarm now sim sim') (d : Datagram) :
    SameSwarm now (sim.arrived d) (sim'.arrived d) := by
  refine ⟨⟨h.crew.length, h.crew.alike⟩, ?_, ?_, h.ledger⟩
  · rw [network_arrived, network_arrived, ← h.network.isBound_eq, ← h.network.stats]
    exact ⟨h.network.latency, h.network.loss, h.network.draws, h.network.bound, h.network.outbox,
      rfl⟩
  · rw [telemetry_arrived, telemetry_arrived]
    exact h.telemetry

/-- A leader reports its colour when it starts. -/
theorem telemetry_begun (sim : Simulation) (c : Craft) (wrap : Duty → Event) (network : Network) :
    (Act.begun (scene sim c) wrap network).world.telemetry = if c.agent.role.isLeader then
      (sim.world.telemetry.reportColor ⟨sim.world.clock, c.agent.id, leaderColor⟩).1
      else sim.world.telemetry := by
  unfold Act.begun
  exact apply_ite World.telemetry _ _ _

/-- Sinks that differ in positions only take down the same colour. -/
theorem SameSwarm.reportColor (h : SameSwarm now sim sim') (r : ColorRecord) :
    (sim.world.telemetry.reportColor r).1.unsampled =
      (sim'.world.telemetry.reportColor r).1.unsampled := by
  rw [Telemetry.unsampled_reportColor, Telemetry.unsampled_reportColor, h.telemetry]

theorem SameSwarm.heard (h : SameSwarm now sim sim') (craft : sim.crafts[i]? = some c)
    (craft' : sim'.crafts[i]? = some c') (received : Tally) (table : PeerTable) :
    SameSwarm now (played sim i (Act.heard (scene sim c) received table))
      (played sim' i (Act.heard (scene sim' c') received table)) := by
  have halike := h.crew.alike i c c' craft craft'
  have hagent := congrArg (fun a : Agent => { a with received, table }) halike.agent
  exact ⟨h.crew.played ⟨hagent, halike.track⟩, h.network, h.telemetry, h.ledger⟩

section Scenes

variable (h : SameSwarm sim.world.clock sim sim') (hclock : sim.world.clock = sim'.world.clock)
  (craft : sim.crafts[i]? = some c) (craft' : sim'.crafts[i]? = some c')

include h hclock craft craft'

theorem SameSwarm.begun {network network' : Network}
    (bind : sim.world.network.bind c.agent.id = .ok network)
    (bind' : sim'.world.network.bind c'.agent.id = .ok network') :
    SameSwarm sim.world.clock (played sim i (Act.begun (scene sim c) (.duty i) network))
      (played sim' i (Act.begun (scene sim' c') (.duty i) network')) := by
  have halike := h.crew.alike i c c' craft craft'
  have hid := halike.same Agent.id fun _ => rfl
  have hrole := halike.same Agent.role fun _ => rfl
  have hagent := congrArg (fun a : Agent => { a with stage := .running }) halike.agent
  refine ⟨h.crew.played ⟨hagent, halike.track⟩, h.network.bind bind (hid ▸ bind'), ?_, h.ledger⟩
  show (Act.begun _ _ _).world.telemetry.unsampled = (Act.begun _ _ _).world.telemetry.unsampled
  rw [telemetry_begun, telemetry_begun, ← hrole, ← hid, ← hclock]
  split
  · exact h.reportColor _
  · exact h.telemetry

theorem SameSwarm.announced {sent sent' : Tally} {next next' : Instant}
    (counts : c.agent.sent.incrementAll c.agent.audience = .ok sent)
    (counts' : c'.agent.sent.incrementAll c'.agent.audience = .ok sent') :
    SameSwarm sim.world.clock (played sim i (Act.announced (scene sim c) (.duty i) sent next))
      (played sim' i (Act.announced (scene sim' c') (.duty i) sent' next')) := by
  have halike := h.crew.alike i c c' craft craft'
  have haudience := halike.same Agent.audience fun _ => rfl
  have hbefore := halike.same Agent.sent fun _ => rfl
  rw [← haudience, ← hbefore] at counts'
  cases counts.symm.trans counts'
  have hagent := congrArg (fun a : Agent => { a with sent }) halike.agent
  have hmail : c.agent.mail c.track sim.world.clock =
      c'.agent.mail c'.track sim'.world.clock := by
    rw [← hclock, ← halike.same (Agent.mail · c'.track sim.world.clock) fun _ => rfl]
    simp only [Agent.mail, Agent.beacon, halike.track.position _ (Nat.le_refl _)]
  have hnetwork := h.network.sendAll (c.agent.mail c.track sim.world.clock)
  nth_rewrite 2 [hmail] at hnetwork
  exact ⟨h.crew.played ⟨hagent, halike.track⟩, hnetwork, h.telemetry, h.ledger⟩

theorem SameSwarm.steered {step step' : MotionStep}
    (advance : c.agent.advance c.track sim.world.clock = some step)
    (advance' : c'.agent.advance c'.track sim'.world.clock = some step') :
    SameSwarm sim.world.clock (played sim i (Act.steered (scene sim c) (.duty i) step))
      (played sim' i (Act.steered (scene sim' c') (.duty i) step')) := by
  have halike := h.crew.alike i c c' craft craft'
  rw [← hclock, ← halike.advance_eq, advance] at advance'
  cases advance'
  have hagent := congrArg (fun a : Agent => { a with velocity := step.velocity }) halike.agent
  exact ⟨h.crew.played ⟨hagent, halike.track.cons step.waypoint⟩, h.network, h.telemetry,
    h.ledger⟩

theorem SameSwarm.turned (ledger : Option Ledger) :
    SameSwarm sim.world.clock { played sim i (Act.turned (scene sim c)) with ledger }
      { played sim' i (Act.turned (scene sim' c')) with ledger } := by
  have halike := h.crew.alike i c c' craft craft'
  have hid := halike.same Agent.id fun _ => rfl
  have hagent := congrArg (fun a : Agent => { a with role := .leader, compromised := true })
    halike.agent
  have hcrew : SameCrew sim.world.clock (played sim i (Act.turned (scene sim c)))
      (played sim' i (Act.turned (scene sim' c'))) := h.crew.played ⟨hagent, halike.track⟩
  refine ⟨⟨hcrew.length, hcrew.alike⟩, h.network, ?_, rfl⟩
  have hcolor := h.reportColor ⟨sim.world.clock, c.agent.id, compromisedColor⟩
  nth_rewrite 2 [hclock, hid] at hcolor
  exact hcolor

end Scenes

/-- An event that has its effect at the same time on both sides has the same effect. -/
theorem Effect.sameSwarm (h : SameSwarm sim.world.clock sim sim') (fleet : sim.Fleet)
    (hclock : sim.world.clock = sim'.world.clock) (effect : sim.Effect event sim₁)
    (effect' : sim'.Effect event sim₁') (hmatters : event.matters) :
    SameSwarm sim.world.clock sim₁ sim₁' := by
  cases effect with
  | starts craft _ bind =>
    cases effect' with
    | starts craft' _ bind' => exact h.begun hclock craft craft' bind bind'
  | broadcasts craft _ counts =>
    cases effect' with
    | broadcasts craft' _ counts' => exact h.announced hclock craft craft' counts counts'
  | computes craft _ advance =>
    cases effect' with
    | computes craft' _ advance' => exact h.steered hclock craft craft' advance advance'
  | @turns i c ledger ledger₁ craft _ _ _ planned fires =>
    cases effect' with
    | @turns _ c' ledger' ledger₁' craft' _ _ _ planned' fires' =>
      have hid := (h.crew.alike i c c' craft craft').same Agent.id fun _ => rfl
      rw [h.ledger, planned'] at planned
      cases planned
      rw [← hclock, ← hid, fires] at fires'
      cases fires'
      exact h.turned hclock craft craft' _
  | @hears i c d _ _ _ craft receiver _ bound _ decodes counts learns =>
    cases effect' with
    | @hears j c' _ _ _ _ craft' receiver' _ _ _ decodes' counts' learns' =>
      obtain ⟨x, hx, hxalike⟩ := h.crew.symm.exists_craft craft'
      obtain rfl : i = j := fleet.index_inj craft hx
        (receiver.symm.trans (receiver'.trans (hxalike.same Agent.id fun _ => rfl)))
      have halike := h.crew.alike i c c' craft craft'
      cases decodes.symm.trans decodes'
      rw [← halike.same Agent.received fun _ => rfl] at counts'
      rw [← halike.same Agent.table fun _ => rfl] at learns'
      cases counts.symm.trans counts'
      cases learns.symm.trans learns'
      exact (h.arrived d).heard craft craft' _ _
    | misses unbound =>
      rw [← h.network.isBound_eq, bound] at unbound
      cases unbound
  | @misses d unbound =>
    cases effect' with
    | hears _ _ _ bound =>
      rw [← h.network.isBound_eq, unbound] at bound
      cases bound
    | misses => exact h.arrived d
  | samples => cases hmatters

/-! ## Moves -/

theorem SameSwarm.withQueue (h : SameSwarm now sim sim') (q q' : EventQueue Event) :
    SameSwarm now (sim.withQueue q) (sim'.withQueue q') :=
  ⟨⟨h.crew.length, h.crew.alike⟩, h.network, h.telemetry, h.ledger⟩

theorem unsampled_foldl_reportPosition (f : Craft → PositionRecord) (crafts : List Craft)
    (w : World Event) :
    (crafts.foldl (fun w c => w.reportPosition (f c)) w).telemetry.unsampled =
      w.telemetry.unsampled := by
  induction crafts generalizing w with
  | nil => rfl
  | cons c rest ih => exact (ih _).trans (Telemetry.unsampled_reportPosition _ _)

/-- Sampling drops waypoints that have had their day, and reports positions. -/
theorem SameSwarm.sampled (h : SameSwarm now sim sim') (next : Instant)
    (hle : sim.world.clock ≤ now) : SameSwarm now (sim.sampled next) sim' := by
  refine ⟨⟨?_, fun i x c' hx hc' => ?_⟩, h.network, ?_, h.ledger⟩
  · exact (List.length_map _).trans h.crew.length
  · obtain ⟨c, hc, rfl⟩ := Option.map_eq_some_iff.1 (List.getElem?_map.symm.trans hx)
    have halike := h.crew.alike i c c' hc hc'
    exact ⟨halike.agent, halike.track.prune hle⟩
  · exact (unsampled_foldl_reportPosition _ _ _).trans h.telemetry

/-- A sample on one side is not noticed on the other. -/
theorem Moves.alike_of_sample (h : sim.Alike sim') (hu : sim.Underway)
    (hm : sim.Moves e r sim₁) (hsample : e.event = .sample) : sim₁.Alike sim' := by
  cases hm with
  | refused _ _ _ hstart => exact nomatch hsample.symm.trans hstart
  | @went q sim₁ popped takes early effect inReach =>
    have hahead := hu.sound.queue.ahead e (EventQueue.mem_live.1 takes.mem).1
    have hmatters : e.event.matters = false := by rw [hsample]; rfl
    rw [hsample] at effect
    obtain ⟨next, rfl⟩ : ∃ next, sim₁ = (sim.withQueue q).sampled next := by
      cases effect with
      | samples => exact ⟨_, rfl⟩
    have hempty : ((sim.withQueue q).sampled next).world.network.outbox = #[] := hu.empty
    rw [flushed_of_empty hempty]
    have hclock : ((sim.withQueue q).sampled next).world.clock = e.due := takes.clock
    have hlater : sim.world.clock.max sim'.world.clock ≤ e.due.max sim'.world.clock := by
      simp only [Duration.le_def, Duration.nanos_max] at hahead ⊢
      exact max_le_max_right _ hahead
    refine ⟨?_, ?_, h.stopTime⟩
    · rw [hclock]
      refine ((h.swarm.mono hlater).withQueue q sim'.world.queue).sampled next ?_
      show q.clock ≤ _
      rw [takes.clock]
      exact Duration.le_max_left
    · refine h.queue.of_perm_left (.trans ?_ (takes.awaited_of_neg hmatters).symm)
      have hnone : ∀ x ∈ [(next, Event.sample)], x.2.matters = false := by simp [Event.matters]
      exact takes.wellFormed.awaited_scheduleAll_of_none hnone

theorem Alike.flushed (h : SameSwarm sim.world.clock sim sim')
    (hqueue : EventQueue.Alike Event.matters sim.world.queue sim'.world.queue)
    (hstop : sim.stopTime = sim'.stopTime) (hclock : sim.world.clock = sim'.world.clock)
    (hq : sim.world.queue.WellFormed) (hq' : sim'.world.queue.WellFormed) :
    sim.flushed.Alike sim'.flushed := by
  obtain ⟨hsurviving, hnetwork⟩ := h.network.collect
  have hmax : sim.flushed.world.clock.max sim'.flushed.world.clock = sim.world.clock := by
    rw [clock_flushed, clock_flushed, ← hclock]
    exact Duration.max_eq_left (Nat.le_refl _)
  refine ⟨hmax ▸ ⟨⟨h.crew.length, h.crew.alike⟩, hnetwork, h.telemetry, h.ledger⟩, ?_, hstop⟩
  have hcollect : sim.world.collect.1 = sim'.world.collect.1 := hsurviving
  have harrival : sim.arrivalTime = sim'.arrivalTime := by
    rw [arrivalTime, arrivalTime, hclock, h.network.latency]
  have hboth := hqueue.scheduleAll hq hq' hclock
    (sim.world.collect.1.map fun d => (sim.arrivalTime, .arrival d))
  nth_rewrite 2 [hcollect, harrival] at hboth
  exact hboth

/-- What comes next apart from samples is the same on both sides, and keeps them alike. -/
theorem Moves.alike (h : sim.Alike sim') (hu : sim.Underway) (hu' : sim'.Underway)
    (hm : sim.Moves e (.ok true) sim₁) (hm' : sim'.Moves e' (.ok true) sim₁')
    (he : e.event.matters) (he' : e'.event.matters) :
    sim.occurrence e (.ok true) = sim'.occurrence e' (.ok true) ∧ sim₁.Alike sim₁' := by
  cases hm with
  | @went q x popped takes early effect inReach =>
  cases hm' with
  | @went q' x' popped' takes' early' effect' inReach' =>
    obtain ⟨hdue, hevent, hqueue⟩ := h.queue.takes hu'.sound.queue takes takes' he he'
    have hahead := hu.sound.queue.ahead e (EventQueue.mem_live.1 takes.mem).1
    have hahead' := hu'.sound.queue.ahead e' (EventQueue.mem_live.1 takes'.mem).1
    have hnow : sim.world.clock.max sim'.world.clock ≤ e.due := by
      rw [← hdue] at hahead'
      rw [Duration.le_def, Duration.nanos_max]
      exact max_le hahead hahead'
    have hclock : (sim.withQueue q).world.clock = (sim'.withQueue q').world.clock :=
      takes.clock.trans (hdue.trans takes'.clock.symm)
    have hswarm : SameSwarm (sim.withQueue q).world.clock (sim.withQueue q) (sim'.withQueue q') := by
      rw [show (sim.withQueue q).world.clock = e.due from takes.clock]
      exact (h.swarm.mono hnow).withQueue q q'
    refine ⟨?_, ?_⟩
    · rw [occurrence, occurrence, hdue, hevent, h.swarm.crew.roleFor_eq]
    · rw [← hevent] at effect'
      have hafter := effect.sameSwarm hswarm (hu.fleet.of_roster rfl rfl) hclock effect' he
      obtain ⟨_, hleads⟩ := effect.leads
      obtain ⟨_, hleads'⟩ := effect'.leads
      have hsame := hswarm.crew.successors_eq hclock he
      refine .flushed (hleads.clock ▸ hafter) ?_ ?_ ?_ (effect.wellFormed takes.wellFormed)
        (effect'.wellFormed takes'.wellFormed)
      · rw [hleads.queue, hleads'.queue, ← hsame]
        exact hqueue.scheduleAll takes.wellFormed takes'.wellFormed hclock _
      · exact hleads.stopTime.trans (h.stopTime.trans hleads'.stopTime.symm)
      · exact hleads.clock.trans (hclock.trans hleads'.clock.symm)

/-- When nothing is left on one side before the stop time, only samples are left on the other. -/
theorem Alike.sample_of_closes (h : sim.Alike sim') (hc : sim.Closes sim₁)
    (hm : sim'.Moves e r sim₁') : e.event = .sample := by
  by_contra hne
  obtain ⟨q, -, takes⟩ := hm.popped
  obtain ⟨x, hx, hdue, -⟩ := h.queue.symm.exists_of_mem
    (EventQueue.mem_awaited.2 ⟨takes.mem, Event.matters_iff.2 hne⟩)
  have hlate := hc.late x (EventQueue.mem_awaited.1 hx).1
  rw [hdue, h.stopTime] at hlate
  exact absurd hm.early (Duration.not_lt.2 hlate)

/-- Refusals make no difference. -/
theorem Alike.refuse (h : sim.Alike sim') (a : Address) : (sim.refuse a).Alike sim' := by
  obtain ⟨_, heq⟩ := sim.refuse_eq a
  rw [heq]
  exact ⟨⟨⟨h.swarm.crew.length, h.swarm.crew.alike⟩, ⟨h.swarm.network.latency,
    h.swarm.network.loss, h.swarm.network.draws, h.swarm.network.bound, h.swarm.network.outbox,
    h.swarm.network.stats⟩, h.swarm.telemetry, h.swarm.ledger⟩, h.queue, h.stopTime⟩

end Simulation

end SwarmFlight
