import SwarmFlight.Proofs.Run.Dispatch

/-!
# What a step does to a run

A step either finds that nothing is left before the stop time, and then it stops the agents
and ends the run (`Ends`), or it takes the next event from the queue and dispatches it
(`Happens`). After an event that succeeds everything that was sent is put on its way
(`Flushes`). `Steps` has these cases, and `step_returns` is that there are no others unless a
time is out of range.
-/

namespace SwarmFlight

/-- The part of an agent after the run has ended. -/
def Part.ended (p : Part) : Part :=
  if p.stage = .running then { p with stage := .stopped } else p

/-- An agent after the run has ended. -/
def Agent.retired (a : Agent) : Agent :=
  if a.stage = .running then { a with slots := {}, stage := .stopped } else a

theorem Agent.retired_eq (a : Agent) : ∃ slots stage, a.retired = { a with slots, stage } := by
  unfold retired
  split <;> exact ⟨_, _, rfl⟩

/-- A craft after the run has ended. -/
def Craft.retired (c : Craft) : Craft := ⟨c.agent.retired, c.track⟩

theorem Agent.part_retired (a : Agent) : a.retired.part = a.part.ended := by
  unfold retired Part.ended
  split
  · rename_i h
    rw [if_pos (by exact h)]
    rfl
  · rename_i h
    rw [if_neg (by exact h)]

theorem Craft.retired_retired (c : Craft) : c.retired.retired = c.retired := by
  unfold retired Agent.retired
  split <;> simp_all

namespace Simulation

/-- The parts of all agents. -/
def parts (sim : Simulation) : List Part := sim.crafts.map (·.agent.part)

/-- Addresses are bound by running agents only. -/
def Owned (sim : Simulation) : Prop :=
  ∀ a, sim.world.network.isBound a → ∃ p ∈ sim.parts, p.stage = .running ∧ p.id = a

/-- A run with another queue. -/
def withQueue (sim : Simulation) (queue : EventQueue Event) : Simulation :=
  { sim with world := { sim.world with queue } }

/-- Every datagram in the network was lost or is to arrive one latency later. -/
structure Flushes (sim sim' : Simulation) : Prop where
  leads : ∃ arrivals : List Datagram, arrivals.length ≤ sim.world.network.outbox.size ∧
    sim.Leads (arrivals.map fun d =>
      (sim.world.clock.later sim.world.network.link.latency, .arrival d)) 0 sim'
  outbox : sim'.world.network.outbox = #[]
  crafts : sim'.crafts = sim.crafts
  bound : sim'.world.network.bound = sim.world.network.bound

/-- Nothing has changed but the crafts, the endpoints, what is pending and what there is to tell. -/
def Resembles (sim sim' : Simulation) : Prop := ∃ crafts queue bound journal, sim' = { sim with
  crafts, world := { sim.world with
    queue, journal, network := { sim.world.network with bound } } }

theorem Resembles.trans {sim sim' sim'' : Simulation} (h : sim.Resembles sim')
    (h' : sim'.Resembles sim'') : sim.Resembles sim'' := by
  obtain ⟨_, _, _, _, rfl⟩ := h
  obtain ⟨_, _, _, _, rfl⟩ := h'
  exact ⟨_, _, _, _, rfl⟩

/-- The agents of some indices were stopped if they were running. -/
structure Stops (indices : List Nat) (sim sim' : Simulation) : Prop where
  resembles : sim.Resembles sim'
  drained : ∀ q : EventQueue Event, q.Drained sim.world.queue → q.Drained sim'.world.queue
  crafts : ∀ index, sim'.crafts[index]? =
    (sim.crafts[index]?).map fun c => if index ∈ indices then c.retired else c
  owned : sim.Owned → sim'.Owned
  dormant : sim.Dormant → sim'.Dormant

theorem Stops.refl (sim : Simulation) : Stops [] sim sim :=
  ⟨⟨_, _, _, _, rfl⟩, fun _ => id, fun index => by simp, id, id⟩

theorem Stops.trans {sim sim' sim'' : Simulation} {index : Nat} {rest : List Nat}
    (h : Stops [index] sim sim') (h' : Stops rest sim' sim'') :
    Stops (index :: rest) sim sim'' where
  resembles := h.resembles.trans h'.resembles
  drained q hq := h'.drained q (h.drained q hq)
  crafts j := by
    rw [h'.crafts, h.crafts, Option.map_map]
    congr 1
    funext c
    by_cases hj : j = index <;> by_cases hrest : j ∈ rest <;>
      simp [hj, hrest, Craft.retired_retired]
  owned ho := h'.owned (h.owned ho)
  dormant hd := h'.dormant (h.dormant hd)

/-- Every agent that was running was stopped, and the run is over. -/
structure Ends (sim sim' : Simulation) : Prop where
  finished : sim'.finished = true
  resembles : { sim with finished := true }.Resembles sim'
  drained : ∀ q : EventQueue Event, q.Drained sim.world.queue → q.Drained sim'.world.queue
  crafts : sim'.crafts = sim.crafts.map Craft.retired
  owned : sim.Owned → sim'.Owned
  dormant : sim.Dormant → sim'.Dormant

theorem Ends.stopTime {sim sim' : Simulation} (h : sim.Ends sim') :
    sim'.stopTime = sim.stopTime := by
  obtain ⟨_, _, _, _, rfl⟩ := h.resembles
  rfl

theorem Ends.parts {sim sim' : Simulation} (h : sim.Ends sim') :
    sim'.parts = sim.parts.map Part.ended := by
  rw [Simulation.parts, Simulation.parts, h.crafts, List.map_map, List.map_map]
  exact List.map_congr_left fun c _ => c.agent.part_retired

/-- What comes of a step : what it returns, the entry that it dispatches and the run that it
leaves. -/
inductive Steps (sim : Simulation) : Except Failure Bool → Option (Entry Event) → Simulation → Prop
  /-- The run was over before. -/
  | still (finished : sim.finished = true) : Steps sim (.ok false) none sim
  /-- Nothing is left before the stop time. -/
  | ended {q : EventQueue Event} {sim' : Simulation} (unfinished : sim.finished = false)
      (popped : sim.world.queue.pop = (none, q)) (drained : sim.world.queue.Drained q)
      (late : ∀ e ∈ sim.world.queue.live, sim.world.queue.stopsBy e.due)
      (ends : (sim.withQueue q).Ends sim') : Steps sim (.ok false) none sim'
  /-- An event fails. -/
  | failed {e : Entry Event} {q : EventQueue Event} {f : Failure} {sim' : Simulation}
      (unfinished : sim.finished = false) (popped : sim.world.queue.pop = (some e, q))
      (takes : sim.world.queue.Takes e q) (early : sim.world.queue.stopsBy e.due = false)
      (happens : (sim.withQueue q).Happens e.event (.error f) sim') :
      Steps sim (.error f) (some e) sim'
  /-- An event succeeds. -/
  | went {e : Entry Event} {q : EventQueue Event} {sim₁ sim' : Simulation}
      (unfinished : sim.finished = false) (popped : sim.world.queue.pop = (some e, q))
      (takes : sim.world.queue.Takes e q) (early : sim.world.queue.stopsBy e.due = false)
      (happens : (sim.withQueue q).Happens e.event (.ok ()) sim₁) (flushes : sim₁.Flushes sim') :
      Steps sim (.ok true) (some e) sim'

end Simulation

namespace Run

open Simulation

variable {safe : Prop} {sim : Simulation}

/-! ## Flushing -/

/-- Some datagrams are scheduled to arrive. -/
theorem forM_schedule_returns (delay : Duration) (ds : List Datagram)
    (hsafe : safe → sim.world.clock.nanos + delay.nanos < durationLimit) :
    Returns safe (fun r sim' => r = .ok () ∧ sim' = sim.withQueue (sim.world.queue.scheduleAll
        (ds.map fun d => (sim.world.clock.later delay, .arrival d))))
      ((ds.forM fun d => schedule delay (.arrival d)) sim) := by
  induction ds generalizing sim with
  | nil => exact ⟨rfl, rfl⟩
  | cons d rest ih =>
    refine (schedule_returns hsafe).bind ?_ ?_
    · rintro - - ⟨-, rfl⟩
      exact ih hsafe
    · rintro f - ⟨⟨⟩, -⟩

theorem flush_returns (hsafe : safe →
    sim.world.clock.nanos + sim.world.network.link.latency.nanos < durationLimit) :
    Returns safe (fun r sim' => r = .ok () ∧ sim.Flushes sim') (flush sim) := by
  simp only [flush, Act.bind_apply, Act.modifyGet_apply, Act.get_apply]
  refine (@forM_schedule_returns safe { sim with world := sim.world.collect.2 }
    sim.world.network.link.latency sim.world.collect.1 hsafe).mono ?_
  rintro - - ⟨rfl, rfl⟩
  refine ⟨rfl, ⟨_, ?_, ⟨rfl, rfl, rfl, rfl, rfl, rfl, rfl, Nat.zero_le _⟩⟩, rfl, rfl, rfl⟩
  exact (Network.surviving_sublist _ _ _).length_le

/-! ## The end -/

@[simp] theorem scene_agent (sim : Simulation) (c : Craft) : (scene sim c).agent = c.agent := rfl

@[simp] theorem parts_played (index : Nat) (s : Scene Event) :
    (played sim index s).parts = sim.parts.set index s.agent.part := by
  simp only [parts, played, List.map_set]

theorem getElem?_parts (index : Nat) :
    sim.parts[index]? = (sim.crafts[index]?).map (·.agent.part) := List.getElem?_map

theorem dormant_played {index : Nat} {s : Scene Event}
    (h : s.agent.stage = .uninitialized → s.agent.slots = {}) (hd : sim.Dormant) :
    (played sim index s).Dormant := by
  intro c hc
  rcases List.mem_or_eq_of_mem_set hc with hc | rfl
  · exact hd c hc
  · exact h

/-- An agent that stops gives up its address. -/
theorem owned_stopped {index : Nat} {c : Craft} (hc : sim.crafts[index]? = some c)
    (ho : sim.Owned) : (played sim index (Act.stopped (scene sim c))).Owned := by
  intro a ha
  obtain ⟨hne, ha⟩ := (Act.isBound_stopped a).1 ha
  obtain ⟨p, hp, hrun, hid⟩ := ho a ha
  obtain ⟨j, hj⟩ := List.getElem?_of_mem hp
  have hji : index ≠ j := by
    rintro rfl
    rw [getElem?_parts, hc] at hj
    cases hj
    exact hne hid.symm
  refine ⟨p, List.mem_of_getElem? (i := j) ?_, hrun, hid⟩
  rw [parts_played, List.getElem?_set_ne hji, hj]

theorem stopAt_returns {index : Nat} (hindex : index < sim.crafts.length) :
    Returns safe (fun r sim' => r = .ok () ∧ Stops [index] sim sim')
      (withCraft index (do if (← Act.agent).stage = .running then Act.stop) sim) := by
  have hc : sim.crafts[index]? = some sim.crafts[index] := List.getElem?_eq_getElem hindex
  generalize sim.crafts[index] = c at hc
  by_cases hrun : c.agent.stage = .running
  · have hretired : (⟨(Act.stopped (scene sim c)).agent, c.track⟩ : Craft) = c.retired := by
      simp only [Craft.retired, Agent.retired, if_pos hrun]
      rfl
    have hact : Returns safe (fun r s => r = .ok () ∧ s = Act.stopped (scene sim c))
        ((do if (← Act.agent).stage = .running then Act.stop : Act Event Unit) (scene sim c)) := by
      have hstop : Act.stop (scene sim c) = .ok () _ := Act.stop_eq hrun
      simp only [Act.bind_apply, Act.agent_apply, scene_agent, if_pos hrun, hstop]
      exact ⟨rfl, rfl⟩
    refine (withCraft_returns hc hact).mono ?_
    rintro - - ⟨-, ⟨rfl, rfl⟩, rfl⟩
    refine ⟨rfl, ?_, fun q hq => Act.drained_stopped (s := scene sim c) hq, fun j => ?_,
      owned_stopped hc, dormant_played fun h => nomatch h⟩
    · obtain ⟨queue, bound, journal, hworld⟩ := Act.world_stopped (scene sim c)
      rw [played, hworld]
      exact ⟨_, queue, bound, journal, rfl⟩
    · show (sim.crafts.set index ⟨(Act.stopped (scene sim c)).agent, c.track⟩)[j]? = _
      rw [hretired]
      by_cases hj : index = j
      · rw [← hj, List.getElem?_set_self hindex, hc]
        simp
      · rw [List.getElem?_set_ne hj]
        simp [Ne.symm hj]
  · have hretired : c.retired = c := by
      simp only [Craft.retired, Agent.retired, if_neg hrun]
    have hact : Returns safe (fun r s => r = .ok () ∧ s = scene sim c)
        ((do if (← Act.agent).stage = .running then Act.stop : Act Event Unit) (scene sim c)) := by
      simp only [Act.bind_apply, Act.agent_apply, scene_agent, if_neg hrun]
      exact ⟨rfl, rfl⟩
    refine (withCraft_returns hc hact).mono ?_
    rintro - - ⟨-, ⟨rfl, rfl⟩, rfl⟩
    rw [played_scene hc]
    refine ⟨rfl, ⟨_, _, _, _, rfl⟩, fun _ => id, fun j => ?_, id, id⟩
    by_cases hj : j = index
    · rw [hj, hc]
      simp [hretired]
    · simp [hj]

theorem forM_stopAt_returns (indices : List Nat)
    (hlt : ∀ index ∈ indices, index < sim.crafts.length) :
    Returns safe (fun r sim' => r = .ok () ∧ Stops indices sim sim')
      ((indices.forM fun index =>
        withCraft index (do if (← Act.agent).stage = .running then Act.stop)) sim) := by
  induction indices generalizing sim with
  | nil => exact ⟨rfl, .refl sim⟩
  | cons index rest ih =>
    obtain ⟨hindex, hrest⟩ := List.forall_mem_cons.1 hlt
    refine (stopAt_returns hindex).bind ?_ ?_
    · rintro - sim' ⟨-, hs⟩
      refine (ih fun j hj => ?_).mono fun _ _ h => ⟨h.1, hs.trans h.2⟩
      have hj := hrest j hj
      rw [← Nat.not_le, ← List.getElem?_eq_none_iff] at hj ⊢
      rwa [hs.crafts, Option.map_eq_none_iff]
    · rintro f - ⟨⟨⟩, -⟩

/-- At the end of a run every agent that is running is stopped. -/
theorem tearDown_returns : Returns safe (fun r sim' => r = .ok () ∧ sim.Ends sim')
    (tearDown sim) := by
  have heq : tearDown sim = ((List.range sim.crafts.length).forM (fun index =>
      withCraft index (do if (← Act.agent).stage = .running then Act.stop)) >>= fun _ => do
        let stopTime := (← get).stopTime
        setWorld (·.note (.tornDown stopTime))) { sim with finished := true } := rfl
  rw [heq]
  refine (@forM_stopAt_returns safe { sim with finished := true } _
    fun index h => List.mem_range.1 h).bind ?_ ?_
  · rintro - sim' ⟨-, hs⟩
    obtain ⟨_, _, _, _, hsim'⟩ := hs.resembles
    refine ⟨rfl, by rw [hsim'], hs.resembles.trans ⟨_, _, _, _, rfl⟩, hs.drained, ?_,
      hs.owned, hs.dormant⟩
    refine List.ext_getElem? fun j => (hs.crafts j).trans ?_
    rw [List.getElem?_map]
    refine Option.map_congr fun c hc => if_pos ?_
    exact List.mem_range.2 (List.getElem?_eq_some_iff.1 hc).1
  · rintro f - ⟨⟨⟩, -⟩

/-! ## One step -/

theorem next_eq (sim : Simulation) :
    next sim = .ok sim.world.queue.pop.1 (sim.withQueue sim.world.queue.pop.2) := rfl

/-- A step does what `Steps` says, and it returns if the periods fit between the stop time and the
end of the clock. -/
theorem step_returns (hq : sim.world.queue.WellFormed) (hd : sim.Dormant)
    (hstop : sim.world.queue.stopTime = some sim.stopTime)
    (hroom : safe → sim.HasRoom sim.stopTime) :
    Returns safe (fun r sim' => ∃ e, sim.Steps r e sim') (step sim) := by
  unfold step
  simp only [Act.bind_apply, Act.get_apply]
  by_cases hf : sim.finished = true
  · simp only [if_pos hf]
    exact ⟨none, .still hf⟩
  · have hf : sim.finished = false := Bool.eq_false_iff.2 hf
    simp only [hf, Bool.false_eq_true, if_false, Act.bind_apply, next_eq]
    rcases hq.pop_cases with ⟨q, hpop, hdrained, hlate⟩ | ⟨e, q, hpop, htakes, hearly⟩
    · simp only [hpop]
      refine tearDown_returns.bind ?_ ?_
      · rintro - sim' ⟨-, hends⟩
        refine ⟨none, .ended hf hpop hdrained (fun x hx => ?_) hends⟩
        rcases hlate with hnil | ⟨e, -, hfirst, hs⟩
        · rw [hnil] at hx
          exact absurd hx List.not_mem_nil
        · exact EventQueue.stopsBy_mono (Entry.due_le_of_before (hfirst x hx)) hs
      · rintro f - ⟨⟨⟩, -⟩
    · simp only [hpop]
      have hle : q.clock ≤ sim.stopTime := by
        rw [htakes.clock]
        exact Nat.le_of_lt (EventQueue.lt_of_not_stopsBy hstop hearly)
      have hroom' : safe → (sim.withQueue q).HasRoom (sim.withQueue q).world.clock := fun hs =>
        have h := (hroom hs).mono hle
        ⟨h.duties, h.sample, h.latency⟩
      refine (@dispatch_returns safe (sim.withQueue q) e.event hd hroom').bind ?_ ?_
      · rintro ⟨⟩ sim₁ hhappens
        obtain ⟨events, -, hleads⟩ := hhappens.leads
        have hclock : sim₁.world.clock = q.clock := hleads.clock
        refine (@flush_returns safe sim₁ ?_).bind ?_ ?_
        · rw [hclock, hleads.link]
          exact fun hs => (hroom' hs).latency
        · rintro - sim' ⟨-, hflushes⟩
          exact ⟨some e, .went hf hpop htakes hearly hhappens hflushes⟩
        · rintro f - ⟨⟨⟩, -⟩
      · intro f sim' hhappens
        exact ⟨some e, .failed hf hpop htakes hearly hhappens⟩

end Run

end SwarmFlight
