import SwarmFlight.Proofs.Run.Acts
import SwarmFlight.Simulation.Run

/-!
# What an event does to a run

`successors` lists what an event may schedule, with the times. `Happens` says what comes of
an event that is dispatched, in three cases : an agent starts, a follower turns, or no agent
changes its part. `dispatch_returns` is that every event does one of these, and breaks down
only if one of its successors is out of range.
-/

namespace SwarmFlight

namespace Simulation

/-- The events that an event may schedule, with their times. -/
def successors (sim : Simulation) : Event → List (Instant × Event)
  | .start index =>
    match sim.crafts[index]? with
    | some c => (Act.firstDuties c.agent sim.world.clock).map fun x => (x.1, .duty index x.2)
    | none => []
  | .duty _ .compromise => []
  | .duty index duty =>
    match sim.crafts[index]? with
    | some c =>
      [(sim.world.clock.later (Act.interval c.agent.settings duty), .duty index duty)]
    | none => []
  | .arrival _ => []
  | .sample => [(sim.world.clock.later sim.samplePeriod, .sample)]

/-- How many datagrams an event may send. -/
def reach (sim : Simulation) : Event → Nat
  | .duty index duty =>
    match sim.crafts[index]? with
    | some c => Act.reach c.agent.settings duty
    | none => 0
  | _ => 0

/-- A run goes on as it is but for its crafts, some events that were scheduled and at most `sent`
datagrams that were sent. -/
structure Leads (sim : Simulation) (events : List (Instant × Event)) (sent : Nat)
    (sim' : Simulation) : Prop where
  settings : sim'.settings = sim.settings
  samplePeriod : sim'.samplePeriod = sim.samplePeriod
  stopTime : sim'.stopTime = sim.stopTime
  finished : sim'.finished = sim.finished
  queue : sim'.world.queue = sim.world.queue.scheduleAll events
  link : sim'.world.network.link = sim.world.network.link
  refused : sim'.world.network.refused = sim.world.network.refused
  outbox : sim'.world.network.outbox.size ≤ sim.world.network.outbox.size + sent

theorem Leads.refl (sim : Simulation) (sent : Nat) : sim.Leads [] sent sim :=
  ⟨rfl, rfl, rfl, rfl, rfl, rfl, rfl, Nat.le_add_right _ _⟩

theorem Leads.clock {sim sim' : Simulation} {events : List (Instant × Event)} {sent : Nat}
    (h : sim.Leads events sent sim') : sim'.world.clock = sim.world.clock := by
  rw [World.clock, h.queue, EventQueue.clock_scheduleAll]
  rfl

theorem Leads.le {sim sim' : Simulation} {events : List (Instant × Event)} {sent sent' : Nat}
    (h : sim.Leads events sent sim') (hle : sent ≤ sent') : sim.Leads events sent' sim' :=
  { h with outbox := h.outbox.trans (Nat.add_le_add_left hle _) }

theorem Leads.trans {sim sim' sim'' : Simulation} {events events' : List (Instant × Event)}
    {sent sent' : Nat} (h : sim.Leads events sent sim') (h' : sim'.Leads events' sent' sim'') :
    sim.Leads (events ++ events') (sent + sent') sim'' where
  settings := h'.settings.trans h.settings
  samplePeriod := h'.samplePeriod.trans h.samplePeriod
  stopTime := h'.stopTime.trans h.stopTime
  finished := h'.finished.trans h.finished
  queue := by rw [h'.queue, h.queue, EventQueue.scheduleAll_append]
  link := h'.link.trans h.link
  refused := h'.refused.trans h.refused
  outbox := by
    have := h.outbox
    have := h'.outbox
    omega

/-- An agent that has not started has no duties scheduled. -/
def Dormant (sim : Simulation) : Prop :=
  ∀ c ∈ sim.crafts, c.agent.stage = .uninitialized → c.agent.slots = {}

/-- Every period and the latency can be added to an instant. -/
structure HasRoom (sim : Simulation) (now : Instant) : Prop where
  duties : ∀ c ∈ sim.crafts, ∀ duty,
    now.nanos + (Act.interval c.agent.settings duty).nanos < durationLimit
  sample : now.nanos + sim.samplePeriod.nanos < durationLimit
  latency : now.nanos + sim.world.network.link.latency.nanos < durationLimit

theorem HasRoom.mono {sim : Simulation} {now now' : Instant} (h : sim.HasRoom now')
    (hle : now ≤ now') : sim.HasRoom now where
  duties c hc duty := Nat.lt_of_le_of_lt (Nat.add_le_add_right hle _) (h.duties c hc duty)
  sample := Nat.lt_of_le_of_lt (Nat.add_le_add_right hle _) h.sample
  latency := Nat.lt_of_le_of_lt (Nat.add_le_add_right hle _) h.latency

end Simulation

/-- An agent kept its part, and is just as it was if it was not running. -/
structure Craft.Keeps (c c' : Craft) : Prop where
  part : c'.agent.part = c.agent.part
  idle : c.agent.stage ≠ .running → c'.agent = c.agent

theorem Craft.Keeps.refl (c : Craft) : c.Keeps c := ⟨rfl, fun _ => rfl⟩

namespace Simulation

/-- What comes of an event : what it returns and the run that it leaves. -/
inductive Happens (sim : Simulation) : Event → Except Failure Unit → Simulation → Prop
  /-- No agent changes its part. -/
  | kept {event : Event} {r : Except Failure Unit} {events : List (Instant × Event)}
      {sim' : Simulation} (leads : sim.Leads events (sim.reach event) sim')
      (within : events.Sublist (sim.successors event))
      (crafts : List.Forall₂ Craft.Keeps sim.crafts sim'.crafts)
      (bound : sim'.world.network.bound = sim.world.network.bound)
      (start : ∀ index, event = .start index → sim' = sim ∧ ∃ f, r = .error f ∧
        ∀ c, sim.crafts[index]? = some c → c.agent.stage = .uninitialized →
          sim.world.network.bind c.agent.id = .error f)
      (turn : ∀ index c, event = .duty index .compromise → sim.crafts[index]? = some c →
        c.agent.stage = .running → c.agent.compromised || c.agent.role.isLeader) :
      Happens sim event r sim'
  /-- An agent starts. -/
  | started {index : Nat} {c c' : Craft} {sim' : Simulation} (craft : sim.crafts[index]? = some c)
      (fresh : c.agent.stage = .uninitialized)
      (leads : sim.Leads (sim.successors (.start index)) 0 sim')
      (crafts : sim'.crafts = sim.crafts.set index c')
      (part : c'.agent.part = { c.agent.part with stage := .running })
      (bind : sim.world.network.bind c.agent.id = .ok sim'.world.network) :
      Happens sim (.start index) (.ok ()) sim'
  /-- A follower turns. -/
  | turned {index : Nat} {c c' : Craft} {r : Except Failure Unit} {sim' : Simulation}
      (craft : sim.crafts[index]? = some c) (running : c.agent.stage = .running)
      (leads : sim.Leads [] 0 sim') (crafts : sim'.crafts = sim.crafts.set index c')
      (part : c'.agent.part = { c.agent.part with role := .leader, compromised := true })
      (bound : sim'.world.network.bound = sim.world.network.bound) :
      Happens sim (.duty index .compromise) r sim'

/-- However an event happens, it schedules some of its successors. -/
theorem Happens.leads {sim sim' : Simulation} {event : Event} {r : Except Failure Unit}
    (h : sim.Happens event r sim') : ∃ events, events.Sublist (sim.successors event) ∧
      sim.Leads events (sim.reach event) sim' := by
  cases h with
  | kept leads within => exact ⟨_, within, leads⟩
  | started _ _ leads => exact ⟨_, .refl _, leads.le (Nat.zero_le _)⟩
  | turned _ _ leads => exact ⟨[], .refl _, leads.le (Nat.zero_le _)⟩

end Simulation

namespace Run

open Simulation

variable {safe : Prop} {sim : Simulation}

/-! ## In the scene of an agent -/

/-- The scene of an agent of a run. -/
def scene (sim : Simulation) (c : Craft) : Scene Event := ⟨c.agent, c.track, sim.world⟩

/-- A run in which a scene was played by the agent of an index. -/
def played (sim : Simulation) (index : Nat) (s : Scene Event) : Simulation :=
  { sim with world := s.world, crafts := sim.crafts.set index ⟨s.agent, s.track⟩ }

theorem withCraft_of_none {α : Type} {index : Nat} (act : Act Event α)
    (h : sim.crafts[index]? = none) :
    withCraft index act sim = .error (.failure .invalidState) sim := by
  simp only [withCraft, h]

/-- What an agent does in its scene. -/
theorem withCraft_returns {α : Type} {index : Nat} {act : Act Event α} {c : Craft}
    {post : Except Failure α → Scene Event → Prop} (hc : sim.crafts[index]? = some c)
    (h : Returns safe post (act (scene sim c))) :
    Returns safe (fun r sim' => ∃ s, post r s ∧ sim' = played sim index s)
      (withCraft index act sim) := by
  obtain ⟨settings, world, crafts, ledger, samplePeriod, stopTime, finished⟩ := sim
  simp only [withCraft, hc]
  revert h
  show Returns safe post (act ⟨c.agent, c.track, world⟩) → _
  cases act ⟨c.agent, c.track, world⟩ with
  | ok a s => exact fun h => ⟨s, h, rfl⟩
  | error e s =>
    cases e with
    | failure f => exact fun h => ⟨s, h, rfl⟩
    | _ => exact id

theorem forall₂_keeps_set {crafts : List Craft} {index : Nat} {c c' : Craft}
    (hc : crafts[index]? = some c) (hk : c.Keeps c') :
    List.Forall₂ Craft.Keeps crafts (crafts.set index c') := by
  induction crafts generalizing index with
  | nil => exact .nil
  | cons d rest ih =>
    cases index with
    | zero =>
      cases hc
      exact .cons hk (List.forall₂_same.2 fun x _ => Craft.Keeps.refl x)
    | succ index => exact .cons (Craft.Keeps.refl d) (ih hc)

/-- A scene that keeps the part of its agent keeps those of the run. -/
theorem leads_played {index : Nat} {c : Craft} {s : Scene Event} {events : List (Instant × Event)}
    {sent : Nat} (hk : (scene sim c).Keeps events sent s) :
    sim.Leads events sent (played sim index s) :=
  ⟨rfl, rfl, rfl, rfl, hk.queue, hk.link, hk.refused, hk.outbox⟩

theorem played_scene {index : Nat} {c : Craft} (hc : sim.crafts[index]? = some c) :
    played sim index (scene sim c) = sim := by
  obtain ⟨hlt, hget⟩ := List.getElem?_eq_some_iff.1 hc
  have hset : sim.crafts.set index c = sim.crafts := by rw [← hget, List.set_getElem_self]
  exact congrArg (fun crafts => { sim with crafts }) hset

/-- A run that nothing happens to. -/
theorem happens_nothing {event : Event} {r : Except Failure Unit}
    (hstart : ∀ index, event = .start index → ∃ f, r = .error f ∧
      ∀ c, sim.crafts[index]? = some c → c.agent.stage = .uninitialized →
        sim.world.network.bind c.agent.id = .error f)
    (hturn : ∀ index c, event = .duty index .compromise → sim.crafts[index]? = some c →
      c.agent.stage = .running → c.agent.compromised || c.agent.role.isLeader) :
    sim.Happens event r sim :=
  .kept (.refl sim _) (List.nil_sublist _) (List.forall₂_same.2 fun x _ => .refl x) rfl
    (fun index he => ⟨rfl, hstart index he⟩) hturn

/-- An act that keeps the part of an agent keeps the parts in the run. -/
theorem happens_played {event : Event} {r : Except Failure Unit} {index sent : Nat} {c : Craft}
    {s : Scene Event} {events : List (Instant × Event)} (hc : sim.crafts[index]? = some c)
    (hk : (scene sim c).Keeps events sent s) (hsent : sent ≤ sim.reach event)
    (hwithin : events.Sublist (sim.successors event))
    (hstart : ∀ index, event ≠ .start index)
    (hturn : ∀ index c, event = .duty index .compromise → sim.crafts[index]? = some c →
      c.agent.stage = .running → c.agent.compromised || c.agent.role.isLeader) :
    sim.Happens event r (played sim index s) := by
  refine .kept (leads_played (hk.le hsent)) hwithin ?_ hk.bound
    (fun index he => absurd he (hstart index)) hturn
  exact forall₂_keeps_set hc ⟨hk.part, hk.idle⟩

/-! ## Events -/

theorem start_happens {index : Nat} (hd : sim.Dormant) :
    Returns safe (sim.Happens (.start index)) (dispatch (.start index) sim) := by
  show Returns safe _ (withCraft index (Act.start (.duty index)) sim)
  cases hc : sim.crafts[index]? with
  | none =>
    rw [withCraft_of_none _ hc]
    refine happens_nothing ?_ (by rintro _ _ ⟨⟩)
    rintro _ ⟨⟩
    refine ⟨.invalidState, rfl, fun c hc' => ?_⟩
    rw [hc] at hc'
    cases hc'
  | some c =>
    refine (withCraft_returns hc (Act.start_returns (hd c (List.mem_of_getElem? hc)))).mono ?_
    rintro (f | ⟨⟩) sim' ⟨s, hs, rfl⟩
    · obtain ⟨hs, hbind⟩ := hs
      rw [hs, played_scene hc]
      refine happens_nothing ?_ (by rintro _ _ ⟨⟩)
      rintro _ ⟨⟩
      refine ⟨f, rfl, fun c' hc' => ?_⟩
      rw [hc] at hc'
      cases hc'
      exact hbind
    · have hs : Act.Starts (.duty index) (scene sim c) s := hs
      obtain ⟨hlink, houtbox, hrefused, -⟩ := Network.bind_ok hs.bind
      have hqueue : (played sim index s).world.queue =
          sim.world.queue.scheduleAll (sim.successors (.start index)) := by
        simp only [successors, hc]
        exact hs.queue
      have hleads : sim.Leads (sim.successors (.start index)) 0 (played sim index s) :=
        ⟨rfl, rfl, rfl, rfl, hqueue, hlink, hrefused, (congrArg Array.size houtbox).le⟩
      exact .started hc hs.fresh hleads rfl hs.part hs.bind

theorem duty_happens {index : Nat} {duty : Duty} (hduty : duty ≠ .compromise)
    (hroom : safe → sim.HasRoom sim.world.clock) :
    Returns safe (sim.Happens (.duty index duty)) (dispatch (.duty index duty) sim) := by
  have hdispatch : dispatch (.duty index duty) sim =
      withCraft index (Act.handle (.duty index) duty) sim := by
    cases duty with
    | compromise => exact absurd rfl hduty
    | _ => rfl
  have hturn : ∀ (index' : Nat) (c : Craft), Event.duty index duty = .duty index' .compromise →
      sim.crafts[index']? = some c → c.agent.stage = .running →
      c.agent.compromised || c.agent.role.isLeader := by
    rintro _ _ ⟨⟩
    exact absurd rfl hduty
  rw [hdispatch]
  cases hc : sim.crafts[index]? with
  | none =>
    rw [withCraft_of_none _ hc]
    exact happens_nothing nofun hturn
  | some c =>
    have hsafe : safe → (scene sim c).world.clock.nanos +
        (Act.interval (scene sim c).agent.settings duty).nanos < durationLimit :=
      fun h => (hroom h).duties c (List.mem_of_getElem? hc) duty
    have hsucc : sim.successors (.duty index duty) =
        [(sim.world.clock.later (Act.interval c.agent.settings duty), .duty index duty)] := by
      cases duty with
      | compromise => exact absurd rfl hduty
      | _ => simp only [successors, hc]
    have hreach : sim.reach (.duty index duty) = Act.reach c.agent.settings duty := by
      simp only [Simulation.reach, hc]
    refine (withCraft_returns hc (Act.handle_returns hduty hsafe)).mono ?_
    rintro r sim' ⟨s, ⟨-, -, hk⟩ | ⟨-, hr⟩, rfl⟩
    · exact happens_played hc hk (Nat.zero_le _) (List.nil_sublist _) nofun hturn
    · cases r with
      | ok =>
        refine happens_played hc hr hreach.ge ?_ nofun hturn
        rw [hsucc]
        exact List.Sublist.refl _
      | error f => exact happens_played hc hr hreach.ge (List.nil_sublist _) nofun hturn

/-- The run after the agent of an index turned. -/
theorem happens_turned {index : Nat} {c : Craft} {r : Except Failure Unit} {sim' : Simulation}
    (hc : sim.crafts[index]? = some c) (hrun : c.agent.stage = .running)
    (h : ∃ ledger, sim' = { played sim index (Act.turned (scene sim c)) with ledger }) :
    sim.Happens (.duty index .compromise) r sim' := by
  obtain ⟨ledger, rfl⟩ := h
  exact .turned hc hrun ⟨rfl, rfl, rfl, rfl, rfl, rfl, rfl, Nat.le_refl _⟩ rfl rfl rfl

theorem compromise_happens (index : Nat) :
    Returns safe (sim.Happens (.duty index .compromise))
      (dispatch (.duty index .compromise) sim) := by
  show Returns safe _ (compromise index sim)
  unfold compromise
  cases hc : sim.crafts[index]? with
  | none =>
    rw [Act.bind_apply, withCraft_of_none _ hc]
    refine happens_nothing (by rintro _ ⟨⟩) ?_
    rintro _ c ⟨⟩ hc'
    rw [hc] at hc'
    cases hc'
  | some c =>
    have hact : Returns safe (fun r s =>
        (r = .ok false ∧ (scene sim c).Keeps [] 0 s ∧
          (c.agent.stage = .running → c.agent.compromised || c.agent.role.isLeader)) ∨
        (r = .ok true ∧ c.agent.stage = .running ∧ s = Act.turned (scene sim c)))
        ((do if (← Act.agent).stage = .running then Act.turn else return false : Act Event Bool)
          (scene sim c)) := by
      by_cases hrun : c.agent.stage = .running
      · simp only [Act.bind_apply, Act.agent_apply, scene, if_pos hrun, Act.turn_eq]
        split
        · rename_i h
          exact .inl ⟨rfl, Act.keeps_cleared .compromise hrun, fun _ => h⟩
        · exact .inr ⟨rfl, hrun, rfl⟩
      · simp only [Act.bind_apply, Act.agent_apply, scene, if_neg hrun, Act.pure_apply]
        exact .inl ⟨rfl, .refl _, fun h => absurd h hrun⟩
    refine (withCraft_returns hc hact).bind ?_ ?_
    · rintro fired sim' ⟨s, ⟨⟨⟩, hk, hleader⟩ | ⟨⟨⟩, hrun, rfl⟩, rfl⟩
      · refine happens_played hc hk (Nat.zero_le _) (List.nil_sublist _) (by rintro _ ⟨⟩) ?_
        rintro _ c' ⟨⟩ hc'
        rw [hc] at hc'
        cases hc'
        exact hleader
      · -- whatever the ledger says, the agent has turned
        simp only [if_true, Act.bind_apply, Act.get_apply]
        generalize hsim : played sim index (Act.turned (scene sim c)) = sim₁
        cases sim₁.ledger with
        | none => exact happens_turned hc hrun ⟨_, hsim.symm⟩
        | some ledger =>
          cases sim₁.crafts[index]? with
          | none => exact happens_turned hc hrun ⟨_, hsim.symm⟩
          | some craft =>
            dsimp only
            cases ledger.fire craft.agent.id sim₁.now with
            | ok fired => exact happens_turned hc hrun ⟨some fired.2, by rw [hsim]⟩
            | error f => exact happens_turned hc hrun ⟨_, hsim.symm⟩
    · rintro f sim' ⟨s, ⟨⟨⟩, -⟩ | ⟨⟨⟩, -⟩, -⟩

/-- Delivering counts a datagram and does nothing else to the world. -/
theorem leads_deliver (sim : Simulation) (d : Datagram) :
    sim.Leads [] 0 { sim with world := (sim.world.deliver d).2 } ∧
      (sim.world.deliver d).2.network.bound = sim.world.network.bound := by
  have hw : (sim.world.deliver d).2.queue = sim.world.queue ∧
      (sim.world.deliver d).2.network.link = sim.world.network.link ∧
      (sim.world.deliver d).2.network.refused = sim.world.network.refused ∧
      (sim.world.deliver d).2.network.outbox = sim.world.network.outbox ∧
      (sim.world.deliver d).2.network.bound = sim.world.network.bound := by
    unfold World.deliver Network.deliver
    cases sim.world.network.isBound d.receiver <;> exact ⟨rfl, rfl, rfl, rfl, rfl⟩
  obtain ⟨hq, hl, hr, ho, hb⟩ := hw
  exact ⟨⟨rfl, rfl, rfl, rfl, hq, hl, hr, (congrArg Array.size ho).le⟩, hb⟩

theorem arrival_happens (d : Datagram) :
    Returns safe (sim.Happens (.arrival d)) (dispatch (.arrival d) sim) := by
  show Returns safe _ (arrive d sim)
  obtain ⟨hleads, hbound⟩ := leads_deliver sim d
  simp only [arrive, Act.bind_apply, Act.modifyGet_apply]
  generalize hsim : ({ sim with world := (sim.world.deliver d).2 } : Simulation) = sim₁ at hleads ⊢
  have hcrafts : sim₁.crafts = sim.crafts := by rw [← hsim]
  have hkept : ∀ (r : Except Failure Unit) (sim' : Simulation), sim₁.Leads [] 0 sim' →
      List.Forall₂ Craft.Keeps sim₁.crafts sim'.crafts →
      sim'.world.network.bound = sim₁.world.network.bound →
      sim.Happens (.arrival d) r sim' := by
    intro r sim' hl hc hb
    rw [hcrafts] at hc
    rw [← hsim] at hb
    exact .kept (hleads.trans hl) (List.nil_sublist _) hc (hb.trans hbound) (by rintro _ ⟨⟩)
      (by rintro _ _ ⟨⟩)
  have hsame : ∀ r, sim.Happens (.arrival d) r sim₁ := fun r =>
    hkept r _ (.refl _ 0) (List.forall₂_same.2 fun x _ => .refl x) rfl
  cases (sim.world.deliver d).1 with
  | none => exact hsame _
  | some d =>
    simp only [Act.bind_apply, Act.get_apply]
    cases sim₁.indexOf? d.receiver with
    | none => exact hsame _
    | some index =>
      cases hc : sim₁.crafts[index]? with
      | none =>
        have hw := withCraft_of_none (Act.receive d.sender d.payload) hc
        show Returns safe _ (EStateM.map _ (withCraft index _) sim₁)
        simp only [EStateM.map, hw]
        exact hsame _
      | some c =>
        refine (withCraft_returns hc (Act.receive_returns d.sender d.payload)).of_discard ?_
        rintro r sim' ⟨s, hk, rfl⟩
        exact hkept _ _ (leads_played hk) (forall₂_keeps_set hc ⟨hk.part, hk.idle⟩) hk.bound

/-- Position samples touch nothing of the world that a run goes by. -/
theorem foldl_reportPosition (f : Craft → PositionRecord) (crafts : List Craft)
    (w : World Event) :
    (crafts.foldl (fun w c => w.reportPosition (f c)) w).queue = w.queue ∧
      (crafts.foldl (fun w c => w.reportPosition (f c)) w).network = w.network := by
  induction crafts generalizing w with
  | nil => exact ⟨rfl, rfl⟩
  | cons c rest ih => exact ih (w.reportPosition (f c))

/-- An event is scheduled if its time is in range. -/
theorem schedule_schedules {delay : Duration} {event : Event}
    (hsafe : safe → sim.world.clock.nanos + delay.nanos < durationLimit) :
    Returns safe (fun r sim' => r = .ok () ∧ ∃ t, sim.world.clock.add? delay = some t ∧
        sim' = { sim with world := (sim.world.scheduleAt t event).2 })
      (schedule delay event sim) := by
  unfold schedule
  cases ht : sim.world.clock.add? delay with
  | some t => exact ⟨rfl, t, rfl, rfl⟩
  | none =>
    intro hs
    obtain ⟨t, ht'⟩ := Option.isSome_iff_exists.1 (Duration.isSome_add?_iff.2 (hsafe hs))
    rw [ht] at ht'
    cases ht'

theorem schedule_returns {delay : Duration} {event : Event}
    (hsafe : safe → sim.world.clock.nanos + delay.nanos < durationLimit) :
    Returns safe (fun r sim' => r = .ok () ∧ sim' = { sim with
      world := (sim.world.scheduleAt (sim.world.clock.later delay) event).2 })
      (schedule delay event sim) := by
  refine (schedule_schedules hsafe).mono ?_
  rintro - - ⟨rfl, t, ht, rfl⟩
  rw [Duration.later_eq ht]
  exact ⟨rfl, rfl⟩

theorem sample_happens (hroom : safe → sim.HasRoom sim.world.clock) :
    Returns safe (sim.Happens .sample) (dispatch .sample sim) := by
  show Returns safe _ (sample sim)
  simp only [sample, Act.bind_apply, Act.modify_apply, Act.get_apply]
  have hw := foldl_reportPosition
    (fun c => ⟨sim.now, c.agent.id, c.track.positionAt sim.now⟩) sim.crafts sim.world
  generalize sim.crafts.foldl (fun w c => w.reportPosition
    ⟨sim.now, c.agent.id, c.track.positionAt sim.now⟩) sim.world = w at hw ⊢
  have hclock : w.clock = sim.world.clock := congrArg EventQueue.clock hw.1
  refine (schedule_returns ?_).mono ?_
  · show safe → w.clock.nanos + _ < _
    rw [hclock]
    exact fun hs => (hroom hs).sample
  · rintro - - ⟨rfl, rfl⟩
    have hleads : sim.Leads (sim.successors .sample) (sim.reach .sample) { sim with
        world := (w.scheduleAt (w.clock.later sim.samplePeriod) .sample).2
        crafts := sim.crafts.map fun c => { c with track := c.track.prune sim.now } } := by
      refine ⟨rfl, rfl, rfl, rfl, ?_, congrArg _ hw.2, congrArg _ hw.2,
        (congrArg (·.outbox.size) hw.2).le⟩
      rw [hclock]
      show (w.queue.scheduleAt _ _).2 = _
      rw [hw.1]
      rfl
    refine .kept hleads (List.Sublist.refl _) ?_ (congrArg _ hw.2) (by rintro _ ⟨⟩)
      (by rintro _ _ ⟨⟩)
    rw [List.forall₂_map_right_iff]
    exact List.forall₂_same.2 fun c _ => ⟨rfl, fun _ => rfl⟩

/-- Every event happens in one of the three ways. -/
theorem dispatch_returns (event : Event) (hd : sim.Dormant)
    (hroom : safe → sim.HasRoom sim.world.clock) :
    Returns safe (sim.Happens event) (dispatch event sim) := by
  cases event with
  | start index => exact start_happens hd
  | duty index duty =>
    by_cases hduty : duty = .compromise
    · rw [hduty]
      exact compromise_happens index
    · exact duty_happens hduty hroom
  | arrival d => exact arrival_happens d
  | sample => exact sample_happens hroom

end Run

end SwarmFlight
