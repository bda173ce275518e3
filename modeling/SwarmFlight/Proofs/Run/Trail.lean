import SwarmFlight.Proofs.Run.Termination
import SwarmFlight.Proofs.Run.Underway

/-!
# The trail of a run

`Travels` are the states of a run between any two calls, with every step on the way. The trail
has the history of the run in it (`Travels.reaches`, `Reaches.exists_travels`).

A run that was under way in the beginning is under way until it is over. What holds of it is
shown for the beginning, for each refusal and each move, for its end and for the calls that
come after (`Travels.induction`). A run of runnable settings can be brought to its end
(`Built.exists_travels`).
-/

namespace SwarmFlight

/-- A step that returned : the run before it, what it returned and the run after it. -/
structure Move where
  before : Simulation
  result : Except Failure Bool
  after : Simulation

/-- What was dispatched in a step. -/
def Move.occurrences (m : Move) : List Occurrence := m.before.occurrences m.result

namespace Simulation

variable {first sim sim' : Simulation} {moves : List Move} {log : List Occurrence}
  {r : Except Failure Bool} {e : Entry Event}

/-- The states that a run gets to from its first one, and the steps on the way. -/
inductive Travels (first : Simulation) : List Move → Simulation → Prop
  | first : Travels first [] first
  | refuse {moves : List Move} {sim : Simulation} (a : Address) (h : Travels first moves sim) :
      Travels first moves (sim.refuse a)
  | step {moves : List Move} {sim sim' : Simulation} {r : Except Failure Bool}
      (h : Travels first moves sim) (step : Run.step sim = returned r sim') :
      Travels first (moves ++ [⟨sim, r, sim'⟩]) sim'

theorem Travels.reaches (h : first.Travels moves sim) :
    first.Reaches (moves.flatMap Move.occurrences) sim := by
  induction h with
  | first => exact .first
  | refuse a h ih => exact .refuse a ih
  | step h step ih =>
    rw [List.flatMap_append, List.flatMap_singleton]
    exact .step ih step

theorem Reaches.exists_travels (h : first.Reaches log sim) :
    ∃ moves, first.Travels moves sim ∧ log = moves.flatMap Move.occurrences := by
  induction h with
  | first => exact ⟨[], .first, rfl⟩
  | refuse a h ih =>
    obtain ⟨moves, ht, rfl⟩ := ih
    exact ⟨moves, .refuse a ht, rfl⟩
  | step h step ih =>
    obtain ⟨moves, ht, rfl⟩ := ih
    refine ⟨_, .step ht step, ?_⟩
    rw [List.flatMap_append, List.flatMap_singleton]
    rfl

/-! ## Histories -/

theorem Moves.popped (h : sim.Moves e r sim') : ∃ q, sim.world.queue.pop = (some e, q) ∧
    sim.world.queue.Takes e q := by
  cases h with
  | refused popped takes => exact ⟨_, popped, takes⟩
  | went popped takes => exact ⟨_, popped, takes⟩

theorem Moves.occurrences (h : sim.Moves e r sim') (hf : sim.finished = false) :
    sim.occurrences r = [sim.occurrence e r] := by
  obtain ⟨q, popped, takes⟩ := h.popped
  rw [Simulation.occurrences, hf, popped, occurrence, ← takes.clock]
  rfl

theorem Closes.occurrences (h : sim.Closes sim') (r : Except Failure Bool) :
    sim.occurrences r = [] := by
  unfold Simulation.occurrences
  split
  · rfl
  · split
    · rename_i hpop
      have hidle := h.idle
      rw [hpop] at hidle
      cases hidle
    · rfl

theorem refuse_finished (sim : Simulation) (a : Address) :
    (sim.refuse a).finished = sim.finished := by
  obtain ⟨refused, heq⟩ := sim.refuse_eq a
  rw [heq]
  rfl

theorem Underway.refuse (h : sim.Underway) (a : Address) : (sim.refuse a).Underway := by
  obtain ⟨refused, heq⟩ := sim.refuse_eq a
  rw [heq]
  exact h.withRefused refused

/-- What holds of a run while it goes on, and what holds of it when it is over. -/
theorem Travels.induction {P Q : List Move → Simulation → Prop} (h : first.Travels moves sim)
    (hu : first.Underway) (hfirst : P [] first)
    (hrefuse : ∀ moves sim a, sim.Underway → P moves sim → P moves (sim.refuse a))
    (hmoves : ∀ moves sim e r sim', sim.Underway → sim.Moves e r sim' → sim'.Underway →
      P moves sim → P (moves ++ [⟨sim, r, sim'⟩]) sim')
    (hcloses : ∀ moves sim sim', sim.Underway → sim.Closes sim' → P moves sim →
      Q (moves ++ [⟨sim, .ok false, sim'⟩]) sim')
    (hover : ∀ moves sim a, sim.finished = true → Q moves sim → Q moves (sim.refuse a))
    (hstill : ∀ moves sim, sim.finished = true → Q moves sim →
      Q (moves ++ [⟨sim, .ok false, sim⟩]) sim) :
    sim.Underway ∧ P moves sim ∨ sim.finished = true ∧ Q moves sim := by
  induction h with
  | first => exact .inl ⟨hu, hfirst⟩
  | @refuse moves sim a h ih =>
    rcases ih with ⟨hu, hp⟩ | ⟨hf, hq⟩
    · exact .inl ⟨hu.refuse a, hrefuse _ _ a hu hp⟩
    · exact .inr ⟨(refuse_finished sim a).trans hf, hover _ _ a hf hq⟩
  | @step moves sim sim' r h step ih =>
    rcases ih with ⟨hu, hp⟩ | ⟨hf, hq⟩
    · rcases hu.step step with ⟨e, hm, hu'⟩ | ⟨rfl, hc⟩
      · exact .inl ⟨hu', hmoves _ _ e _ _ hu hm hu' hp⟩
      · exact .inr ⟨hc.finished, hcloses _ _ _ hu hc hp⟩
    · rw [step_of_finished hf] at step
      cases r with
      | error f => cases step
      | ok b =>
        cases step
        exact .inr ⟨hf, hstill _ _ hf hq⟩

/-- A run goes on or is over. -/
theorem Travels.underway_or_finished (h : first.Travels moves sim) (hu : first.Underway) :
    sim.Underway ∨ sim.finished = true :=
  (h.induction (P := fun _ _ => True) (Q := fun _ _ => True) hu trivial
    (fun _ _ _ _ _ => trivial) (fun _ _ _ _ _ _ _ _ _ => trivial) (fun _ _ _ _ _ _ => trivial)
    (fun _ _ _ _ _ => trivial) fun _ _ _ _ => trivial).imp And.left And.left

/-- Nothing is to come of a run that is over. -/
theorem Travels.live_eq_nil (h : first.Travels moves sim) (hu : first.Underway)
    (hf : sim.finished = true) : sim.world.queue.live = [] := by
  have hall := @Travels.induction first sim moves (fun _ _ => True)
    (fun _ sim => sim.world.queue.live = []) h hu trivial
    (fun _ _ _ _ _ => trivial) (fun _ _ _ _ _ _ _ _ _ => trivial)
    (fun _ _ _ _ hc _ => hc.drained.live) (fun _ sim a _ hq => ?_) fun _ _ _ hq => hq
  · rcases hall with ⟨hu, -⟩ | ⟨-, hq⟩
    · exact absurd hf (by rw [hu.unfinished]; exact nofun)
    · exact hq
  · obtain ⟨_, heq⟩ := sim.refuse_eq a
    rw [heq]
    exact hq

/-! ## Who takes part -/

theorem Moves.roster_eq (h : sim.Moves e r sim') : sim'.roster = sim.roster := by
  cases h with
  | refused => rfl
  | went _ _ _ effect => exact effect.roster_eq

/-- What retiring does not change of an agent is as it was when the run is over. -/
theorem Closes.map_crafts {β : Type} {f : Craft → β} (h : sim.Closes sim')
    (hf : ∀ c : Craft, f c.retired = f c) : sim'.crafts.map f = sim.crafts.map f := by
  rw [h.crafts, List.map_map]
  exact List.map_congr_left fun c _ => hf c

theorem Closes.roster_eq (h : sim.Closes sim') : sim'.roster = sim.roster := by
  refine h.map_crafts fun c => ?_
  obtain ⟨_, _, heq⟩ := c.agent.retired_eq
  rw [Craft.retired, heq]

/-- Nobody joins or leaves a run, and nobody changes who it is. -/
theorem Travels.roster_eq (h : first.Travels moves sim) (hu : first.Underway) :
    sim.roster = first.roster := by
  have hrefuse : ∀ (sim : Simulation) (a : Address), (sim.refuse a).roster = sim.roster := by
    intro sim a
    obtain ⟨_, heq⟩ := sim.refuse_eq a
    rw [heq]
    rfl
  have hall := @Travels.induction first sim moves (fun _ sim => sim.roster = first.roster)
    (fun _ sim => sim.roster = first.roster) h hu rfl (fun _ _ a _ hp => (hrefuse _ a).trans hp)
    (fun _ _ _ _ _ _ hm _ hp => hm.roster_eq.trans hp)
    (fun _ _ _ _ hc hp => hc.roster_eq.trans hp)
    (fun _ _ a _ hp => (hrefuse _ a).trans hp) fun _ _ _ hp => hp
  exact hall.elim And.right And.right

/-- The agents keep their addresses. -/
theorem Travels.fleet (h : first.Travels moves sim) (hu : first.Underway) : sim.Fleet := by
  have hall := @Travels.induction first sim moves (fun _ _ => True) (fun _ sim => sim.Fleet) h hu
    trivial (fun _ _ _ _ _ => trivial) (fun _ _ _ _ _ _ _ _ _ => trivial)
    (fun _ _ _ hu hc _ => ?_) (fun _ sim a _ hq => ?_) fun _ _ _ hq => hq
  · rcases hall with ⟨hu, -⟩ | ⟨-, hq⟩
    · exact hu.fleet
    · exact hq
  · have hroster := hc.roster_eq
    obtain ⟨_, _, _, _, rfl⟩ := hc.resembles
    exact hu.fleet.of_roster hroster rfl
  · obtain ⟨_, heq⟩ := sim.refuse_eq a
    rw [heq]
    exact hq.of_roster rfl rfl

/-! ## Refusals -/

theorem Moves.refused_eq (h : sim.Moves e r sim') :
    sim'.world.network.refused = sim.world.network.refused := by
  cases h with
  | refused => rfl
  | went _ _ _ effect =>
    obtain ⟨_, hleads⟩ := effect.leads
    exact hleads.refused

theorem Closes.refused_eq (h : sim.Closes sim') :
    sim'.world.network.refused = sim.world.network.refused := by
  obtain ⟨_, _, _, _, hsim'⟩ := h.resembles
  rw [hsim']

/-- A run of runnable settings comes to its end, and nobody need refuse an address. -/
theorem Built.exists_travels {s : Settings} (h : first.Built s) (hr : s.Runnable) :
    ∃ moves last, first.Travels moves last ∧ last.finished = true ∧
      last.world.network.refused = Registry.empty := by
  have hcalls : ∀ n, (∀ k < n, ∃ r sim', call (fun _ => []) first k = returned r sim') →
      ∃ moves, first.Travels moves (before (fun _ => []) first n) ∧
        (before (fun _ => []) first n).world.network.refused = Registry.empty := by
    intro n hreturned
    induction n with
    | zero => exact ⟨[], .first, congrArg Network.refused h.network⟩
    | succ n ih =>
      obtain ⟨moves, ht, hrefused⟩ := ih fun k hk => hreturned k (Nat.lt_succ_of_lt hk)
      obtain ⟨r, sim', hcall⟩ := hreturned n (Nat.lt_succ_self n)
      have hstep : Run.step (before (fun _ => []) first n) = returned r sim' := hcall
      have hnext : before (fun _ => []) first (n + 1) = sim' := by
        rw [before, hstep, leftBy_returned]
        rfl
      rw [hnext]
      refine ⟨_, .step ht hcall, ?_⟩
      rcases ht.underway_or_finished h.underway with hu | hf
      · rcases hu.step hstep with ⟨e, hm, -⟩ | ⟨-, hc⟩
        · exact hm.refused_eq.trans hrefused
        · exact hc.refused_eq.trans hrefused
      · rw [step_of_finished hf] at hstep
        cases r with
        | error f => cases hstep
        | ok b =>
          cases hstep
          exact hrefused
  obtain ⟨m, hp⟩ := h.paced hr
  obtain ⟨n, last, -, hs, hf, -, hcall, hlast, hreturned⟩ :=
    @exists_last_call first m (fun _ => []) 0 h.sound hp h.finished
  obtain ⟨moves, ht, hrefused⟩ := hcalls (n + 1) fun k hk => by
    rcases Nat.lt_succ_iff_lt_or_eq.1 hk with hk | rfl
    · obtain ⟨r, sim', hk, -⟩ := hreturned k (Nat.zero_le k) hk
      exact ⟨r, sim', hk⟩
    · exact ⟨.ok false, last, hcall⟩
  have hnext : before (fun _ => []) first (n + 1) = last := by
    rw [before, show Run.step _ = .ok false last from hcall]
    rfl
  rw [hnext] at ht hrefused
  exact ⟨moves, last, ht, (hlast.clean hs hf).2.2.2.1, hrefused⟩

/-- A whole run of a leader and a follower. -/
theorem exists_pair_run : ∃ first j' moves last,
    withPositions .pair [⟨0.0, 0.0, 0.0⟩, ⟨1.0, 0.0, 0.0⟩] (.recorder {})
      (Journal.ofThreshold none) = .ok first j' ∧ first.Travels moves last ∧
      last.finished = true ∧ last.world.network.refused = Registry.empty ∧
      last.ids = [.ofOctets 10 1 1 1, .ofOctets 10 1 1 2] := by
  obtain ⟨first, j', -, hbuilt, -, -, -, hids⟩ := exists_pair
  have hb := built_of_withPositions hbuilt
  obtain ⟨moves, last, hrun, hfinished, hrefused⟩ := hb.exists_travels Settings.pair_runnable
  refine ⟨first, j', moves, last, hbuilt, hrun, hfinished, hrefused, ?_⟩
  rw [ids_eq_of_roster (hrun.roster_eq hb.underway)]
  exact hids

/-- What holds of a run and its history while it goes on, and when it is over. -/
theorem Reaches.induction_to_end {P Q : List Occurrence → Simulation → Prop}
    (h : first.Reaches log sim) (hu : first.Underway) (hfirst : P [] first)
    (hrefuse : ∀ log sim a, sim.Underway → P log sim → P log (sim.refuse a))
    (hmoves : ∀ log sim e r sim', sim.Underway → sim.Moves e r sim' → sim'.Underway →
      P log sim → P (log ++ [sim.occurrence e r]) sim')
    (hcloses : ∀ log sim sim', sim.Underway → sim.Closes sim' → P log sim → Q log sim')
    (hover : ∀ log sim a, sim.finished = true → Q log sim → Q log (sim.refuse a)) :
    sim.Underway ∧ P log sim ∨ sim.finished = true ∧ Q log sim := by
  have hidle : ∀ moves (m : Move), m.occurrences = [] →
      (moves ++ [m]).flatMap Move.occurrences = moves.flatMap Move.occurrences :=
    fun moves m hm => by rw [List.flatMap_append, List.flatMap_singleton, hm, List.append_nil]
  obtain ⟨moves, ht, rfl⟩ := h.exists_travels
  refine ht.induction (P := fun moves sim => P (moves.flatMap Move.occurrences) sim)
    (Q := fun moves sim => Q (moves.flatMap Move.occurrences) sim) hu hfirst
    (fun _ sim a hu hp => hrefuse _ sim a hu hp)
    (fun moves sim e r sim' hu hm hu' hp => ?_) (fun moves sim sim' hu hc hp => ?_)
    (fun _ sim a hf hq => hover _ sim a hf hq) fun moves sim hf hq => ?_
  · have hone : Move.occurrences ⟨sim, r, sim'⟩ = [sim.occurrence e r] :=
      hm.occurrences hu.unfinished
    rw [List.flatMap_append, List.flatMap_singleton, hone]
    exact hmoves _ sim e r sim' hu hm hu' hp
  · rw [hidle moves ⟨sim, .ok false, sim'⟩ (hc.occurrences _)]
    exact hcloses _ sim sim' hu hc hp
  · rw [hidle moves ⟨sim, .ok false, sim⟩ (if_pos hf)]
    exact hq

/-- What holds of a run and its history while it goes on. -/
theorem Reaches.underway_induction {P : List Occurrence → Simulation → Prop}
    (h : first.Reaches log sim) (hu : first.Underway) (hf : sim.finished = false)
    (hfirst : P [] first)
    (hrefuse : ∀ log sim a, sim.Underway → P log sim → P log (sim.refuse a))
    (hmoves : ∀ log sim e r sim', sim.Underway → sim.Moves e r sim' → sim'.Underway →
      P log sim → P (log ++ [sim.occurrence e r]) sim') : sim.Underway ∧ P log sim := by
  have hall := h.induction_to_end (Q := fun _ _ => True) hu hfirst hrefuse hmoves
    (fun _ _ _ _ _ _ => trivial) fun _ _ _ _ _ => trivial
  exact hall.resolve_right fun hover => nomatch hf.symm.trans hover.1

/-- A run that goes on is under way. -/
theorem Reaches.underway (h : first.Reaches log sim) (hu : first.Underway)
    (hf : sim.finished = false) : sim.Underway :=
  (h.underway_induction (P := fun _ _ => True) hu hf trivial (fun _ _ _ _ _ => trivial)
    fun _ _ _ _ _ _ _ _ _ => trivial).1

end Simulation

end SwarmFlight
