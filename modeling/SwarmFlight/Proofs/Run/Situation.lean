import Mathlib.Logic.Basic
import SwarmFlight.Proofs.Run.Compromise
import SwarmFlight.Proofs.Run.Trail

/-!
# The two situations of an agent

In every state of a run that is not over one sample is pending, and each agent either
`Idles`, with its start pending or failed, or is `Busy`, with one broadcast and one step
pending and at most one compromise, each under the number in its slot (`idles_or_busy`).
-/

namespace SwarmFlight

namespace Simulation

open Run

variable {first sim sim₁ sim' : Simulation} {i : Nat} {c : Craft} {log : List Occurrence}

/-- The agent of an index has not started. Its start is pending once, or it has failed. -/
structure Idles (log : List Occurrence) (sim : Simulation) (i : Nat) (c : Craft) : Prop where
  stage : c.agent.stage = .uninitialized
  unbound : sim.world.network.isBound c.agent.id = false
  duties : ∀ duty, sim.world.queue.numbers (.duty i duty) = []
  start : (∃ id, sim.world.queue.numbers (.start i) = [id]) ∨
    sim.world.queue.numbers (.start i) = [] ∧
      ∃ o ∈ log, o.event = .start i ∧ o.succeeded = false

/-- The agent of an index is running. Its slots hold the numbers of what is pending for it. -/
structure Busy (sim : Simulation) (i : Nat) (c : Craft) : Prop where
  stage : c.agent.stage = .running
  bound : sim.world.network.isBound c.agent.id
  start : sim.world.queue.numbers (.start i) = []
  broadcast : ∃ id, sim.world.queue.numbers (.duty i .broadcast) = [id] ∧
    c.agent.slots.broadcast = some id
  compute : ∃ id, sim.world.queue.numbers (.duty i .compute) = [id] ∧
    c.agent.slots.compute = some id
  compromise : sim.world.queue.numbers (.duty i .compromise) = c.agent.slots.compromise.toList

/-- An agent changes its stage by its start only. -/
theorem Effect.stage {event : Event} (h : sim.Effect event sim₁) :
    ∀ (j : Nat) (c' : Craft), sim₁.crafts[j]? = some c' →
      event = .start j ∧ c'.agent.stage = .running ∨
      event ≠ .start j ∧ ∃ c, sim.crafts[j]? = some c ∧ c'.agent.stage = c.agent.stage := by
  cases h with
  | starts craft =>
    refine forall_played (.inl ⟨rfl, rfl⟩) fun j c' hj hc' => .inr ⟨fun h => ?_, c', hc', rfl⟩
    exact hj (Event.start.inj h).symm
  | broadcasts craft =>
    exact forall_played (.inr ⟨nofun, _, craft, rfl⟩) fun j c' _ hc' => .inr ⟨nofun, c', hc', rfl⟩
  | computes craft =>
    exact forall_played (.inr ⟨nofun, _, craft, rfl⟩) fun j c' _ hc' => .inr ⟨nofun, c', hc', rfl⟩
  | turns craft =>
    exact forall_played (.inr ⟨nofun, _, craft, rfl⟩) fun j c' _ hc' => .inr ⟨nofun, c', hc', rfl⟩
  | hears craft =>
    exact forall_played (.inr ⟨nofun, _, craft, rfl⟩) fun j c' _ hc' => .inr ⟨nofun, c', hc', rfl⟩
  | misses => exact fun j c' hc' => .inr ⟨nofun, c', hc', rfl⟩
  | samples =>
    intro j c' hc'
    obtain ⟨c, hc, rfl⟩ := Option.map_eq_some_iff.1 (List.getElem?_map.symm.trans hc')
    exact .inr ⟨nofun, c, hc, rfl⟩

/-- Starts that are neither to come nor done have failed. -/
def Accounted (log : List Occurrence) (sim : Simulation) : Prop :=
  ∀ (i : Nat) (c : Craft), sim.crafts[i]? = some c → c.agent.stage = .uninitialized →
    sim.world.queue.numbers (.start i) = [] → ∃ o ∈ log, o.event = .start i ∧ o.succeeded = false

theorem Accounted.move {e : Entry Event} {r : Except Failure Bool} (h : Accounted log sim)
    (hm : sim.Moves e r sim') : Accounted (log ++ [sim.occurrence e r]) sim' := by
  intro j c' hc' hfresh hnone
  have hold : ∀ c, sim.crafts[j]? = some c → c.agent.stage = .uninitialized →
      sim.world.queue.numbers (.start j) = [] →
      ∃ o ∈ log ++ [sim.occurrence e r], o.event = .start j ∧ o.succeeded = false := by
    intro c hc hfresh hnone
    obtain ⟨o, ho, hfailed⟩ := h j c hc hfresh hnone
    exact ⟨o, List.mem_append_left _ ho, hfailed⟩
  cases hm with
  | @refused q i c popped takes early event craft refused =>
    by_cases hj : i = j
    · subst hj
      exact ⟨_, List.mem_append_right _ (List.mem_singleton_self _), event, rfl⟩
    · refine hold c' hc' hfresh (List.perm_nil.1 (hnone ▸ takes.numbers_of_ne ?_))
      rw [event]
      exact fun heq => hj (Event.start.inj heq)
  | @went q sim₁ popped takes early effect inReach =>
    obtain ⟨_, hleads⟩ := effect.leads
    have hq : (sim.withQueue q).world.queue.WellFormed := takes.wellFormed
    have hnone₁ : sim₁.world.queue.numbers (.start j) = [] :=
      List.nil_perm.1 (hnone ▸ numbers_flushed (effect.wellFormed hq) nofun)
    rcases effect.stage j c' hc' with ⟨-, hrun⟩ | ⟨hother, c, hc, hstage⟩
    · cases hfresh.symm.trans hrun
    · refine hold c hc (hstage.symm.trans hfresh) (List.perm_nil.1 ?_)
      have hleft : (q.numbers (.start j)).Perm [] := by
        rw [hleads.queue] at hnone₁
        refine (hq.numbers_scheduleAll_of_ne fun x hx => ?_).symm.trans (List.Perm.of_eq hnone₁)
        exact start_not_mem_successors hx
      exact (takes.numbers_of_ne hother).trans hleft

theorem Accounted.refuse (h : Accounted log sim) (a : Address) : Accounted log (sim.refuse a) := by
  obtain ⟨refused, heq⟩ := sim.refuse_eq a
  rw [heq]
  exact h

theorem Built.accounted {s : Settings} (h : sim.Built s) : Accounted [] sim := by
  intro i c hc _ hnone
  obtain ⟨start, -, hlength⟩ := h.length_numbers (.start i)
  have hlt := (List.getElem?_eq_some_iff.1 hc).1
  have hmem := start_mem_firstEvents hlt start
  rw [hnone, List.length_nil] at hlength
  exact absurd hlength.symm (List.count_pos_iff.2 hmem).ne'

/-- While a run goes on, one sample is pending and each agent is in just one of two situations : it
has not started, is not bound and has at most its start pending, or it runs, is bound and has
pending what its slots say. -/
theorem idles_or_busy {s : Settings} {positions : List Vec3} {telemetry : Telemetry}
    {j j' : Journal} (hbuilt : withPositions s positions telemetry j = .ok first j')
    (hrun : first.Reaches log sim) (hf : sim.finished = false) :
    (∃ id, sim.world.queue.numbers .sample = [id]) ∧
      ∀ (i : Nat) (c : Craft), sim.crafts[i]? = some c →
        Xor (Idles log sim i c) (Busy sim i c) := by
  have hb := built_of_withPositions hbuilt
  obtain ⟨hu, haccounted⟩ := hrun.underway_induction (P := Accounted) hb.underway hf hb.accounted
    (fun _ _ a _ h => h.refuse a) fun _ _ _ _ _ _ hm _ h => h.move hm
  refine ⟨hu.sample, fun i c hc => ?_⟩
  obtain ⟨hbooks, hstands⟩ := hu.stationed i c hc
  cases hstands with
  | waits fresh plain slots free starts =>
    refine .inl ⟨⟨fresh, free, fun duty => ?_, ?_⟩, fun hbusy => ?_⟩
    · rw [hbooks duty, slots]
      cases duty <;> rfl
    · rcases Nat.le_one_iff_eq_zero_or_eq_one.1 starts with hzero | hone
      · have hnone := List.length_eq_zero_iff.1 hzero
        exact .inr ⟨hnone, haccounted i c hc fresh hnone⟩
      · exact .inl (List.length_eq_one_iff.1 hone)
    · cases hbusy.stage.symm.trans fresh
  | runs running bound starts broadcast compute =>
    obtain ⟨b, hbroadcast⟩ := Option.isSome_iff_exists.1 broadcast
    obtain ⟨k, hcompute⟩ := Option.isSome_iff_exists.1 compute
    refine .inr ⟨⟨running, bound, starts, ⟨b, ?_, hbroadcast⟩, ⟨k, ?_, hcompute⟩,
      hbooks .compromise⟩, fun hidles => ?_⟩
    · rw [hbooks .broadcast, Slots.get, hbroadcast]
      rfl
    · rw [hbooks .compute, Slots.get, hcompute]
      rfl
    · cases hidles.stage.symm.trans running

theorem idles_or_busy_pair : ∃ first j' log sim c,
    withPositions .pair [⟨0.0, 0.0, 0.0⟩, ⟨1.0, 0.0, 0.0⟩] (.recorder {})
      (Journal.ofThreshold none) = .ok first j' ∧ first.Reaches log sim ∧ log ≠ [] ∧
      sim.finished = false ∧ (∃ id, sim.world.queue.numbers .sample = [id]) ∧
      sim.crafts[1]? = some c ∧ Xor (Idles log sim 1 c) (Busy sim 1 c) ∧ Busy sim 1 c := by
  obtain ⟨first, j', -, log, sim, hbuilt, -, -, -, hrun, ⟨o, ho, -⟩, hf, c, hc, hrunning⟩ :=
    pair_started
  obtain ⟨hsample, hagents⟩ := idles_or_busy hbuilt hrun hf
  refine ⟨first, j', log, sim, c, hbuilt, hrun, List.ne_nil_of_mem ho, hf, hsample, hc,
    hagents 1 c hc, (hagents 1 c hc).or.resolve_left fun hidles => ?_⟩
  cases hidles.stage.symm.trans hrunning

end Simulation

end SwarmFlight
