import SwarmFlight.Proofs.Run.Life
import SwarmFlight.Proofs.Run.Trail

/-!
# The agents of a run live

While a run goes on, each of its agents `Lives` in the scene that it makes up with its track
and the world (`Reaches.peopled`). What an event does to its own agent is one thing that
happens in that agent's life; all others only see the world change (`Effect.spares`).
-/

namespace SwarmFlight

/-- What is scheduled for others leaves an agent alone. -/
theorem World.Spares.of_scheduleAll {ε : Type} [DecidableEq ε] [Ranked ε] {wrap : Duty → ε}
    {w w' : World ε} {events : List (Instant × ε)} (hw : w.queue.WellFormed)
    (hqueue : w'.queue = w.queue.scheduleAll events)
    (hothers : ∀ x ∈ events, ∀ duty, x.2 ≠ wrap duty) : w.Spares wrap w' where
  wellFormed := hqueue ▸ hw.scheduleAll
  duties duty := by
    rw [hqueue]
    exact (hw.awaited_scheduleAll_of_none fun x hx => by simpa using hothers x hx duty).subperm

namespace Simulation

open Run

/-- Every agent of a run lives. -/
def Peopled (sim : Simulation) : Prop :=
  ∀ (i : Nat) (c : Craft), sim.crafts[i]? = some c →
    ∃ position n, Lives (.duty i) position n (scene sim c)

variable {s : Settings} {first sim sim₁ sim' : Simulation} {log : List Occurrence}
  {e : Entry Event} {q : EventQueue Event} {r : Except Failure Bool} {i : Nat}

/-! ## What happens without an agent -/

/-- An event for another agent, or for none, schedules nothing for an agent. -/
theorem Effect.spares (h : sim.Effect e.event sim₁) (hq : sim.world.queue.WellFormed)
    (hi : e.event.index? ≠ some i) : sim.world.Spares (.duty i) sim₁.world := by
  obtain ⟨_, hleads⟩ := h.leads
  refine .of_scheduleAll hq hleads.queue fun x hx duty heq => hi ?_
  rw [← index?_of_mem_successors hx, heq]
  rfl

theorem Peopled.meanwhile (h : sim.Peopled) (hcrafts : sim'.crafts = sim.crafts)
    (hspares : ∀ i, sim.world.Spares (.duty i) sim'.world) : sim'.Peopled := by
  intro i c hc
  obtain ⟨position, n, lives⟩ := h i c (hcrafts ▸ hc)
  exact ⟨position, n, lives.meanwhile (hspares i)⟩

theorem Peopled.takes (h : sim.Peopled) (takes : sim.world.queue.Takes e q) :
    (sim.withQueue q).Peopled :=
  h.meanwhile rfl fun _ => takes.spares _

theorem Peopled.flushed (h : sim.Peopled) (hq : sim.world.queue.WellFormed) :
    sim.flushed.Peopled := by
  refine h.meanwhile rfl fun i => .of_scheduleAll hq rfl fun x hx duty => ?_
  obtain ⟨d, -, rfl⟩ := List.mem_map.1 hx
  exact nofun

theorem Peopled.refuse (h : sim.Peopled) (hq : sim.world.queue.WellFormed) (a : Address) :
    (sim.refuse a).Peopled := by
  obtain ⟨_, heq⟩ := sim.refuse_eq a
  rw [heq]
  exact h.meanwhile rfl fun _ => ⟨hq, fun _ => List.Subperm.refl _⟩

/-! ## What happens to an agent -/

/-- Every event is something that happens in the life of each agent. -/
theorem Peopled.of_effect (h : sim.Peopled)
    (pop : sim.world.queue.pop = (some e, q)) (takes : sim.world.queue.Takes e q)
    (effect : (sim.withQueue q).Effect e.event sim₁) : sim₁.Peopled := by
  have hrest : ∀ (j : Nat) (c : Craft), e.event.index? ≠ some j → sim.crafts[j]? = some c →
      ∃ position n, Lives (.duty j) position n ⟨c.agent, c.track, sim₁.world⟩ := by
    intro j c hj hc
    obtain ⟨position, n, lives⟩ := h.takes takes j c hc
    exact ⟨position, n, lives.meanwhile (effect.spares takes.wellFormed hj)⟩
  have hothers : ∀ i, e.event.index? = some i → ∀ (j : Nat) (c : Craft), j ≠ i →
      sim.crafts[j]? = some c →
      ∃ position n, Lives (.duty j) position n ⟨c.agent, c.track, sim₁.world⟩ :=
    fun i hi j c hj => hrest j c fun heq => hj (Option.some.inj (heq.symm.trans hi))
  have hinj : ∀ i, Function.Injective (Event.duty i) := fun i _ _ heq => (Event.duty.inj heq).2
  generalize hevent : e.event = event at effect hrest hothers
  cases effect with
  | @starts i c network craft fresh bind =>
    obtain ⟨position, n, lives⟩ := h.takes takes i c craft
    exact forall_played ⟨position, n, lives.begins (hinj i) fresh bind⟩ (hothers i rfl)
  | @broadcasts i c sent next craft running counts again =>
    obtain ⟨position, n, lives⟩ := h i c craft
    exact forall_played ⟨position, n, lives.announces pop hevent running counts again⟩
      (hothers i rfl)
  | @computes i c step craft running advance =>
    obtain ⟨position, n, lives⟩ := h i c craft
    exact forall_played ⟨position, n + 1, lives.does .compute pop hevent
      (lives.steers (hinj i) pop hevent running advance)⟩ (hothers i rfl)
  | @turns i c ledger ledger' craft running follower plain =>
    obtain ⟨position, n, lives⟩ := h i c craft
    have handle : Act.handle (.duty i) .compromise ((scene sim c).withQueue q) =
        returned (.ok ()) (Act.turned ((scene sim c).withQueue q)) := by
      have hplain : (c.agent.compromised || c.agent.role.isLeader) = false := by
        rw [plain, follower]
        rfl
      rw [Act.handle_compromise (by exact running)]
      exact congrArg (EStateM.Result.ok ()) (if_neg (by exact Bool.eq_false_iff.1 hplain))
    exact forall_played ⟨position, n, lives.does .compromise pop hevent handle⟩ (hothers i rfl)
  | @hears i c d beacon received table craft receiver running bound other decodes counts learns =>
    -- the datagram first gets through the network, then it is heard
    obtain ⟨position, n, lives⟩ := h.takes takes i c craft
    have harrived : (sim.withQueue q).world.Spares (.duty i) ((sim.withQueue q).arrived d).world :=
      .of_scheduleAll takes.wellFormed ((sim.withQueue q).leads_arrived d).queue
        fun x hx => absurd hx List.not_mem_nil
    have receive := Act.receive_eq (s := scene ((sim.withQueue q).arrived d) c) running other
      decodes counts learns
    have hears := (lives.meanwhile harrived).hears (r := .ok true) d.sender d.payload receive
    exact forall_played ⟨position, n, hears⟩ fun j c _ => hrest j c nofun
  | @misses d => exact fun i c hc => hrest i c nofun hc
  | samples again =>
    intro i c hc
    obtain ⟨c, hc', rfl⟩ := Option.map_eq_some_iff.1 (List.getElem?_map.symm.trans hc)
    obtain ⟨position, n, lives⟩ := hrest i c nofun hc'
    exact ⟨position, n, lives.prunes _⟩

theorem Peopled.move (h : sim.Peopled) (moves : sim.Moves e r sim') : sim'.Peopled := by
  cases moves with
  | refused _ takes => exact h.takes takes
  | went pop takes _ effect =>
    exact (h.of_effect pop takes effect).flushed (effect.wellFormed takes.wellFormed)

/-! ## Runs -/

/-- The agents of a run that has just been built have just been created. -/
theorem Built.peopled (h : first.Built s) : first.Peopled := by
  obtain ⟨shared, -, hcrafts⟩ := h.crafts
  intro i c hc
  obtain ⟨id, position, rfl⟩ := hcrafts i c hc
  refine ⟨position, 0, .created id _ _ h.sound.queue fun duty => ?_⟩
  refine List.eq_nil_iff_forall_not_mem.2 fun e he => ?_
  obtain ⟨hlive, hevent⟩ := EventQueue.mem_awaited.1 he
  have hevent : e.event = .duty i duty := by simpa using hevent
  rcases h.event_of_live hlive with ⟨j, -, hstart⟩ | hsample
  · cases hevent.symm.trans hstart
  · cases hevent.symm.trans hsample

/-- While a run goes on, all its agents live. -/
theorem Reaches.peopled (h : first.Reaches log sim) (hb : first.Built s)
    (hf : sim.finished = false) : sim.Peopled :=
  (h.underway_induction (P := fun _ sim => sim.Peopled) hb.underway hf hb.peopled
    (fun _ _ a hu hp => hp.refuse hu.sound.queue a)
    fun _ _ _ _ _ _ hm _ hp => hp.move hm).2

end Simulation

end SwarmFlight
