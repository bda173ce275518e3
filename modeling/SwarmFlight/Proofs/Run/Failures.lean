import SwarmFlight.Proofs.Run.Rests
import SwarmFlight.Proofs.Run.Trail

/-!
# What can fail in a run

A call is `Sturdy` if it returns, or breaks down for no other reason than that a time is out of
range. All that agents do and all that happens in a run is sturdy, since no duty is scheduled
before the one before it is forgotten (`Sound.step_sturdy`).

Of the steps that return, only the start of an agent whose address is refused fails. It leaves
everything but the queue as it was, and the agent waits in vain from then on (`Barred`). With
that, `step_or_refused` tells of every step of every run how it ends.
-/

namespace SwarmFlight

/-! ## Calls that break down -/

section Sturdy

variable {σ α β : Type}

/-- A call returns, or it breaks down as a time is out of range. -/
def Sturdy : EStateM.Result Halt σ α → Prop
  | .ok _ _ => True
  | .error (.failure _) _ => True
  | .error .clockOverflow _ => True
  | .error _ _ => False

variable {res : EStateM.Result Halt σ α} {x : EStateM Halt σ α} {f : α → EStateM Halt σ β} {s : σ}
  {post : Except Failure α → σ → Prop}

theorem Returns.sturdy (h : Returns True post res) : Sturdy res := by
  obtain ⟨r, s, rfl, -⟩ := h.exists_returned trivial
  cases r <;> exact trivial

theorem Sturdy.bind (hx : Sturdy (x s)) (hf : ∀ a s', Sturdy (f a s')) :
    Sturdy ((x >>= f) s) := by
  rw [Act.bind_apply]
  cases hres : x s with
  | ok a s' => exact hf a s'
  | error e s' =>
    rw [hres] at hx
    cases e <;> exact hx

/-- A call that cannot break down, and one after it. -/
theorem Returns.bind_sturdy (hx : Returns True post (x s))
    (hf : ∀ a s', post (.ok a) s' → Sturdy (f a s')) : Sturdy ((x >>= f) s) := by
  obtain ⟨r, s', heq, hpost⟩ := hx.exists_returned trivial
  rw [Act.bind_apply, heq]
  cases r with
  | ok a => exact hf a s' hpost
  | error e => exact trivial

theorem Sturdy.cases (h : Sturdy res) :
    (∃ r s, res = returned r s) ∨ ∃ s, res = .error .clockOverflow s := by
  cases res with
  | ok a s => exact .inl ⟨.ok a, s, rfl⟩
  | error e s =>
    cases e with
    | failure f => exact .inl ⟨.error f, s, rfl⟩
    | clockOverflow => exact .inr ⟨s, rfl⟩
    | _ => exact h.elim

end Sturdy

/-! ## Acts -/

namespace Act

variable {ε : Type} [Ranked ε] {wrap : Duty → ε} {s : Scene ε}

theorem scheduleDuty_sturdy {duty : Duty} {delay : Duration}
    (hslot : s.agent.slots.get duty = none) : Sturdy (scheduleDuty wrap delay duty s) := by
  simp only [scheduleDuty, bind_apply, agent_apply, hslot, Option.isSome_none,
    Bool.false_eq_true, if_false, schedule]
  cases s.world.clock.add? delay <;> exact trivial

theorem broadcast_sturdy (hrun : s.agent.stage = .running) : Sturdy (broadcast wrap s) := by
  rw [broadcast_eq]
  refine (sendFrom_returns (s := cleared s .broadcast) _ _ _ hrun).bind_sturdy ?_
  rintro - s' ⟨-, hslots⟩
  rw [bind_apply, note_apply]
  refine scheduleDuty_sturdy ?_
  rw [hslots]
  exact get_slots_cleared .broadcast

theorem compute_sturdy : Sturdy (compute wrap s) := by
  simp only [compute, bind_apply, clearSlot_apply, clock_apply, agent_apply, track_apply,
    setWorld_apply]
  cases (cleared s .compute).agent.settings.integrator.advance _ _ _ _ with
  | none => exact trivial
  | some step =>
    simp only [bind_apply, setAgent_apply, track_apply]
    cases (cleared s .compute).track.add step.waypoint with
    | error f => exact trivial
    | ok track => exact scheduleDuty_sturdy (get_slots_cleared .compute)

theorem handle_sturdy (duty : Duty) : Sturdy (handle wrap duty s) := by
  by_cases hrun : s.agent.stage = .running
  · cases duty with
    | broadcast =>
      rw [handle_broadcast hrun]
      exact broadcast_sturdy hrun
    | compute =>
      rw [handle_compute hrun]
      exact compute_sturdy
    | compromise =>
      rw [handle_compromise hrun]
      exact trivial
  · rw [handle_idle hrun]
    exact trivial

end Act

/-! ## Events -/

namespace Run

open Simulation

variable {sim : Simulation}

theorem withCraft_sturdy {α : Type} {index : Nat} {act : Act Event α}
    (h : ∀ s, Sturdy (act s)) : Sturdy (withCraft index act sim) := by
  obtain ⟨settings, world, crafts, ledger, samplePeriod, stopTime, finished⟩ := sim
  cases hc : crafts[index]? with
  | none =>
    simp only [withCraft, hc]
    exact trivial
  | some c =>
    have hact := h ⟨c.agent, c.track, world⟩
    simp only [withCraft, hc]
    cases hres : act ⟨c.agent, c.track, world⟩ with
    | ok a s => exact trivial
    | error e s =>
      rw [hres] at hact
      cases e <;> exact hact

theorem schedule_sturdy (delay : Duration) (event : Event) : Sturdy (schedule delay event sim) := by
  unfold schedule
  cases sim.world.clock.add? delay <;> exact trivial

theorem forM_schedule_sturdy (delay : Duration) (ds : List Datagram) :
    Sturdy ((ds.forM fun d => schedule delay (.arrival d)) sim) := by
  induction ds generalizing sim with
  | nil => exact trivial
  | cons d rest ih => exact (schedule_sturdy delay (.arrival d)).bind fun _ _ => ih

theorem flush_sturdy : Sturdy (flush sim) := by
  simp only [flush, Act.bind_apply, Act.modifyGet_apply, Act.get_apply]
  exact forM_schedule_sturdy _ _

theorem dispatch_sturdy (hd : sim.Dormant) (event : Event) : Sturdy (dispatch event sim) := by
  cases event with
  | start index => exact (start_happens hd).sturdy
  | duty index duty =>
    cases duty with
    | compromise => exact (compromise_happens index).sturdy
    | broadcast => exact withCraft_sturdy fun _ => Act.handle_sturdy .broadcast
    | compute => exact withCraft_sturdy fun _ => Act.handle_sturdy .compute
  | arrival d => exact (arrival_happens d).sturdy
  | sample =>
    show Sturdy (sample sim)
    simp only [sample, Act.bind_apply, Act.modify_apply, Act.get_apply]
    exact schedule_sturdy _ _

end Run

namespace Simulation

open Run

variable {first sim sim' : Simulation} {log : List Occurrence} {i : Nat} {c : Craft}
  {e : Entry Event} {q : EventQueue Event} {r : Except Failure Bool}

/-- A step breaks down only if a time is out of range. -/
theorem Sound.step_sturdy (h : sim.Sound) : Sturdy (Run.step sim) := by
  unfold Run.step
  simp only [Act.bind_apply, Act.get_apply]
  split
  · exact trivial
  · simp only [Act.bind_apply, next_eq]
    cases sim.world.queue.pop.1 with
    | none => exact tearDown_returns.bind_sturdy fun _ _ _ => trivial
    | some e =>
      have hd : (sim.withQueue sim.world.queue.pop.2).Dormant := h.dormant
      exact (dispatch_sturdy hd e.event).bind fun _ _ => flush_sturdy.bind fun _ _ => trivial

/-! ## Refused agents -/

/-- The next event is the start of an agent whose address is refused, and it leaves the queue `q`. -/
structure Bars (sim : Simulation) (i : Nat) (c : Craft) (q : EventQueue Event) : Prop where
  unfinished : sim.finished = false
  next : ∃ e, sim.world.queue.pop = (some e, q) ∧ sim.world.queue.Takes e q ∧ e.event = .start i
  craft : sim.crafts[i]? = some c
  refused : sim.world.network.refused.contains c.agent.id

/-- The agent of an index has not started and will not any more. -/
structure Barred (i : Nat) (p : Part) (sim : Simulation) : Prop where
  part : sim.parts[i]? = some p
  fresh : p.stage = .uninitialized
  never : sim.dues (.start i) = []

theorem Barred.withRefused {p : Part} (h : Barred i p sim) (refused : Registry Unit) :
    Barred i p (sim.withRefused refused) := ⟨h.part, h.fresh, h.never⟩

/-- An agent that is barred stays so. -/
theorem Barred.step {p : Part} {e : Option (Entry Event)} (h : Barred i p sim)
    (hsteps : sim.Steps r e sim') : Barred i p sim' := by
  cases e with
  | none =>
    cases hsteps with
    | still => exact h
    | @ended q _ _ _ drained _ ends =>
      have hd : sim.world.queue.Drained (sim.withQueue q).world.queue := drained
      refine ⟨?_, h.fresh, (ends.drained _ hd).dues _⟩
      have hpart : (sim.withQueue q).parts[i]? = some p := h.part
      rw [ends.parts, List.getElem?_map, hpart, Option.map_some, Part.ended, if_neg]
      rw [h.fresh]
      exact nofun
  | some e =>
    obtain ⟨q, takes, touches⟩ := hsteps.touches i
    have hne : e.event ≠ .start i := fun hevent => by
      have hmem : e.due ∈ sim.dues (.start i) := EventQueue.mem_dues.2 ⟨e, takes.mem, hevent, rfl⟩
      rw [h.never] at hmem
      cases hmem
    have hleft : (sim.dues (.start i)).Perm ((sim.withQueue q).dues (.start i)) :=
      takes.dues_of_ne hne
    rw [h.never, List.nil_perm] at hleft
    cases touches with
    | spared part _ _ starts =>
      rw [hleft, List.perm_nil] at starts
      exact ⟨part.trans h.part, h.fresh, starts⟩
    | starts event => exact absurd event hne
    | turns _ before running =>
      cases h.part.symm.trans before
      cases h.fresh.symm.trans running

theorem Reaches.barred {p : Part} (h : first.Reaches log sim) (hs : first.Sound)
    (hb : Barred i p first) : Barred i p sim :=
  h.induction (P := fun _ sim => Barred i p sim) hs hb (fun _ _ refused h => h.withRefused refused)
    fun _ _ _ _ _ _ hsteps h => h.step hsteps

namespace Underway

theorem barred_of_bars (h : sim.Underway) (hb : sim.Bars i c q) :
    Barred i c.agent.part (sim.withQueue q) := by
  obtain ⟨e, -, takes, hevent⟩ := hb.next
  obtain ⟨hfresh, -, -, -, hnumbers⟩ := (h.stationed i c hb.craft).of_start takes.mem hevent
  refine ⟨?_, hfresh, List.eq_nil_iff_forall_not_mem.2 fun t ht => ?_⟩
  · show sim.parts[i]? = _
    rw [getElem?_parts, hb.craft]
    rfl
  · obtain ⟨x, hx, hstart, -⟩ := EventQueue.mem_dues.1 ht
    have hx : x ∈ q.live := hx
    have hid : x.id ∈ sim.world.queue.numbers (.start i) := EventQueue.mem_numbers.2
      ⟨x, takes.live.mem_iff.2 (List.mem_cons_of_mem _ hx), hstart, rfl⟩
    rw [hnumbers, List.mem_singleton] at hid
    exact takes.id_ne h.sound.queue hx hid

/-- The start of an agent whose address is refused fails, and only the event is gone. -/
theorem step_of_bars (h : sim.Underway) (hb : sim.Bars i c q) : Run.step sim =
    .error (.failure (.bindFailed c.agent.id)) (sim.withQueue q) := by
  obtain ⟨e, hpop, takes, hevent⟩ := hb.next
  have hfails : dispatch e.event (sim.withQueue q) =
      .error (.failure (.bindFailed c.agent.id)) (sim.withQueue q) := by
    obtain ⟨r, sim₁, heq, ⟨-, heffect⟩ | ⟨c', hc', -, rfl, rfl⟩⟩ :=
      (@Underway.dispatch_start sim e q True h takes i hevent).exists_returned trivial
    · -- nobody starts at an address that is refused
      cases heffect with
      | starts craft _ bind =>
        cases hb.craft.symm.trans craft
        rw [Network.bind, if_pos (by exact hb.refused)] at bind
        cases bind
    · cases hb.craft.symm.trans hc'
      rw [hevent]
      exact heq
  unfold Run.step
  simp only [Act.bind_apply, Act.get_apply, hb.unfinished, Bool.false_eq_true, if_false, next_eq,
    hpop, hfails]

end Underway

/-! ## Room -/

theorem HasRoom.of_roster {now : Instant} (h : sim.HasRoom now) (hroster : sim'.roster = sim.roster)
    (hperiod : sim'.samplePeriod = sim.samplePeriod)
    (hlink : sim'.world.network.link = sim.world.network.link) : sim'.HasRoom now where
  duties c' hc' duty := by
    obtain ⟨j, hj⟩ := List.getElem?_of_mem hc'
    obtain ⟨c, hc, -, hsettings⟩ := exists_craft_of_roster hroster hj
    rw [← hsettings]
    exact h.duties c (List.mem_of_getElem? hc) duty
  sample := hperiod ▸ h.sample
  latency := hlink ▸ h.latency

theorem Moves.hasRoom {now : Instant} (hm : sim.Moves e r sim') (h : sim.HasRoom now) :
    sim'.HasRoom now := by
  refine h.of_roster hm.roster_eq ?_ ?_
  · cases hm with
    | refused => rfl
    | went _ _ _ effect =>
      obtain ⟨_, hleads⟩ := effect.leads
      exact hleads.samplePeriod
  · cases hm with
    | refused => rfl
    | went _ _ _ effect =>
      obtain ⟨_, hleads⟩ := effect.leads
      exact hleads.link

/-- There is as much room later as there was at first. -/
theorem Reaches.hasRoom {now : Instant} (h : first.Reaches log sim) (hu : first.Underway)
    (hf : sim.finished = false) (hroom : first.HasRoom now) : sim.HasRoom now := by
  refine (h.underway_induction (P := fun _ sim => sim.HasRoom now) hu hf hroom
    (fun _ sim a _ hp => ?_) fun _ _ _ _ _ _ hm _ hp => hm.hasRoom hp).2
  obtain ⟨_, heq⟩ := sim.refuse_eq a
  rw [heq]
  exact ⟨hp.duties, hp.sample, hp.latency⟩

/-! ## Whole runs -/

/-- How a step of a run that is under way ends. -/
theorem Underway.step_cases (h : sim.Underway) (hstep : Run.step sim = returned r sim') :
    (∃ b, r = .ok b) ∨ ∃ i c q, sim.Bars i c q ∧ r = .error (.bindFailed c.agent.id) ∧
      sim' = sim.withQueue q := by
  rcases h.step hstep with ⟨e, hmoves, -⟩ | ⟨rfl, -⟩
  · cases hmoves with
    | @refused q i c popped takes _ event craft refused =>
      exact .inr ⟨i, c, q, ⟨h.unfinished, ⟨e, popped, takes, event⟩, craft, refused⟩, rfl, rfl⟩
    | went => exact .inl ⟨true, rfl⟩
  · exact .inl ⟨false, rfl⟩

/-- Every step of every run succeeds unless it is to start an agent whose address is refused. Then
it fails, takes nothing but that event out of the queue and leaves all else as it was, and the
agent never starts. A step breaks down only if a time is out of range, for which there is no room
between the stop time and the end of the clock. -/
theorem step_or_refused {s : Settings} {positions : List Vec3} {telemetry : Telemetry}
    {j j' : Journal} (hbuilt : withPositions s positions telemetry j = .ok first j')
    (hrun : first.Reaches log sim) :
    ((∃ b sim', Run.step sim = .ok b sim') ∨ (∃ i c q, sim.Bars i c q) ∨
      (∃ sim', Run.step sim = .error .clockOverflow sim') ∧ ¬ first.HasRoom first.stopTime) ∧
    ∀ i c q, sim.Bars i c q →
      Run.step sim = .error (.failure (.bindFailed c.agent.id)) (sim.withQueue q) ∧
      c.agent.stage = .uninitialized ∧
      ∀ log' later, (sim.withQueue q).Reaches log' later →
        ∃ c', later.crafts[i]? = some c' ∧ c'.agent.stage = .uninitialized := by
  have hu := (built_of_withPositions hbuilt).underway
  have hs := hrun.sound hu.sound
  refine ⟨?_, fun i c q hb => ?_⟩
  · by_cases hf : sim.finished = true
    · exact .inl ⟨false, sim, step_of_finished hf⟩
    have hunder := hrun.underway hu (Bool.eq_false_iff.2 hf)
    rcases hs.step_sturdy.cases with ⟨r, sim', hstep⟩ | ⟨sim', hstep⟩
    · rcases hunder.step_cases hstep with ⟨b, rfl⟩ | ⟨i, c, q, hb, -⟩
      · exact .inl ⟨b, sim', hstep⟩
      · exact .inr (.inl ⟨i, c, q, hb⟩)
    · refine .inr (.inr ⟨⟨sim', hstep⟩, fun hroom => ?_⟩)
      have hroom := hrun.hasRoom hu hunder.unfinished hroom
      rw [← hrun.stopTime_eq hu.sound] at hroom
      obtain ⟨r, _, _, hreturned, -⟩ := hs.step hroom
      rw [hstep] at hreturned
      cases r <;> cases hreturned
  · have hunder := hrun.underway hu hb.unfinished
    have hstep := hunder.step_of_bars hb
    have hbarred := hunder.barred_of_bars hb
    have hsound : (sim.withQueue q).Sound := by
      obtain ⟨_, hsteps⟩ := hs.steps_of_returned (r := .error (.bindFailed c.agent.id)) hstep
      exact hsteps.sound hs
    refine ⟨hstep, hbarred.fresh, fun log' later hlater => ?_⟩
    have hpart := (hlater.barred hsound hbarred).part
    obtain ⟨c', hc', hpart⟩ := exists_craft_of_part hpart
    exact ⟨c', hc', (congrArg Part.stage hpart).trans hbarred.fresh⟩

/-- The leader of a pair is to start, and its address is refused. -/
theorem exists_pair_bars : ∃ first j' sim c q,
    withPositions .pair [⟨0.0, 0.0, 0.0⟩, ⟨1.0, 0.0, 0.0⟩] (.recorder {})
      (Journal.ofThreshold none) = .ok first j' ∧ first.HasRoom first.stopTime ∧
      first.Reaches [] sim ∧ sim.Bars 0 c q ∧ c.agent.id = .ofOctets 10 1 1 1 := by
  obtain ⟨first, j', -, hbuilt, -, -, -, hids⟩ := exists_pair
  have hb := built_of_withPositions hbuilt
  obtain ⟨m, hp⟩ := hb.paced Settings.pair_runnable
  have hlength : first.crafts.length = 2 := by simpa using congrArg List.length hids
  obtain ⟨c, hc⟩ : ∃ c, first.crafts[0]? = some c := ⟨_, List.getElem?_eq_getElem (by omega)⟩
  have hid : c.agent.id = .ofOctets 10 1 1 1 := by
    have hfirst := congrArg (·[0]?) hids
    simpa [hc] using hfirst
  -- the leader is the first to start
  obtain ⟨hearly, hlive⟩ := hb.live_of_pair hlength
  obtain ⟨rf, hrf, hcontains⟩ :=
    refuse_of_empty (congrArg Network.refused hb.network) (.ofOctets 10 1 1 1)
  have hs := hb.sound.withRefused rf
  obtain ⟨r, sim', e, -, hsteps⟩ := hs.step (hp.withRefused rf).room
  cases hsteps.takes_first hs hb.finished hlive (by decide) hearly
  obtain ⟨q, -, -, -, popped, takes, -⟩ := hsteps.dispatched
  refine ⟨first, j', first.withRefused rf, c, q, hbuilt, hp.room, hrf ▸ .refuse _ .first,
    ⟨hb.finished, ⟨_, popped, takes, rfl⟩, hc, ?_⟩, hid⟩
  exact (hcontains _).2 hid

theorem step_or_refused_pair : ∃ first j' sim c q,
    withPositions .pair [⟨0.0, 0.0, 0.0⟩, ⟨1.0, 0.0, 0.0⟩] (.recorder {})
      (Journal.ofThreshold none) = .ok first j' ∧ first.HasRoom first.stopTime ∧
      first.Reaches [] sim ∧ sim.Bars 0 c q ∧
      Run.step sim = .error (.failure (.bindFailed (.ofOctets 10 1 1 1))) (sim.withQueue q) ∧
      ∃ b sim', Run.step first = .ok b sim' := by
  obtain ⟨first, j', sim, c, q, hbuilt, hroom, hrun, hb, hid⟩ := exists_pair_bars
  refine ⟨first, j', sim, c, q, hbuilt, hroom, hrun, hb, ?_, ?_⟩
  · rw [← hid]
    exact ((step_or_refused hbuilt hrun).2 0 c q hb).1
  · -- nothing is refused in the beginning
    rcases (step_or_refused hbuilt .first).1 with hok | ⟨i, c, q, hb⟩ | ⟨-, hnot⟩
    · exact hok
    · have hrefused := hb.refused
      rw [(built_of_withPositions hbuilt).network] at hrefused
      cases hrefused
    · exact absurd hroom hnot

end Simulation

end SwarmFlight
