import SwarmFlight.Proofs.Run.Beginning

/-!
# Calls from outside

A run is driven by calls of `step`, and addresses may be refused between any two of them.
`call` is what the calls give one after the other, whether they succeed or fail. A call in a
sound run does what `Steps` says if it returns (`Sound.steps_of_returned`), and it returns if
there is room for the periods (`Sound.step`).
-/

namespace SwarmFlight

namespace Simulation

/-! ## Refusals -/

/-- The run after an address was refused, as far as there is room for refusals. -/
def refuse (sim : Simulation) (a : Address) : Simulation :=
  match sim.world.refuse a with
  | .ok world => { sim with world }
  | .error _ => sim

/-- The run after some addresses were refused. -/
def refuseAll (sim : Simulation) (as : List Address) : Simulation := as.foldl refuse sim

/-- A run with other addresses refused. -/
def withRefused (sim : Simulation) (refused : Registry Unit) : Simulation :=
  { sim with world := { sim.world with network := { sim.world.network with refused } } }

theorem refuse_eq (sim : Simulation) (a : Address) :
    ∃ refused, sim.refuse a = sim.withRefused refused := by
  unfold refuse World.refuse Network.refuse
  cases sim.world.network.refused.put? a () with
  | some refused => exact ⟨refused, rfl⟩
  | none => exact ⟨sim.world.network.refused, rfl⟩

theorem refuseAll_eq (sim : Simulation) (as : List Address) :
    ∃ refused, sim.refuseAll as = sim.withRefused refused := by
  induction as generalizing sim with
  | nil => exact ⟨sim.world.network.refused, rfl⟩
  | cons a rest ih =>
    obtain ⟨refused, h⟩ := sim.refuse_eq a
    obtain ⟨refused', h'⟩ := ih (sim.refuse a)
    refine ⟨refused', h'.trans ?_⟩
    rw [h]
    rfl

variable {sim sim' : Simulation}

/-- The first refusal of a run is taken down. -/
theorem refuse_of_empty (h : sim.world.network.refused = Registry.empty) (a : Address) :
    ∃ rf, sim.refuse a = sim.withRefused rf ∧ ∀ b, rf.contains b ↔ b = a := by
  have hne : sim.world.network.refused.put? a () ≠ none := by
    rw [h, ne_eq, Registry.put?_eq_none_iff]
    exact fun hfull => absurd hfull.2 (by decide)
  obtain ⟨rf, hrf⟩ := Option.ne_none_iff_exists'.1 hne
  refine ⟨rf, ?_, fun b => ?_⟩
  · simp only [refuse, World.refuse, Network.refuse, hrf]
    rfl
  · rw [Registry.contains_put? hrf, h]
    exact or_iff_left Bool.false_ne_true

theorem Sound.withRefused (h : sim.Sound) (refused : Registry Unit) :
    (sim.withRefused refused).Sound :=
  ⟨h.queue, h.ranked, h.stop, h.dormant, h.owned⟩

/-! ## Calls -/

/-- The run that a call leaves, however it ends. -/
def leftBy {α : Type} : EStateM.Result Halt Simulation α → Simulation
  | .ok _ sim => sim
  | .error _ sim => sim

/-- The run just before call `n` of `step`, with the addresses `refused n` refused right before
it. -/
def before (refused : Nat → List Address) (sim : Simulation) : Nat → Simulation
  | 0 => sim.refuseAll (refused 0)
  | n + 1 => (leftBy (Run.step (before refused sim n))).refuseAll (refused (n + 1))

/-- What call `n` of `step` gives. -/
def call (refused : Nat → List Address) (sim : Simulation) (n : Nat) :
    EStateM.Result Halt Simulation Bool :=
  Run.step (before refused sim n)

theorem leftBy_returned {α : Type} (r : Except Failure α) (sim : Simulation) :
    leftBy (returned r sim) = sim := by
  cases r <;> rfl

/-- A step of a sound run. -/
theorem Sound.step (h : sim.Sound) (hroom : sim.HasRoom sim.stopTime) :
    ∃ r sim' e, Run.step sim = returned r sim' ∧ sim.Steps r e sim' := by
  obtain ⟨r, sim', heq, e, hsteps⟩ := (@Run.step_returns True sim h.queue h.dormant h.stop
    fun _ => hroom).exists_returned trivial
  exact ⟨r, sim', e, heq, hsteps⟩

/-- A step that returned, whether or not it could have broken down. -/
theorem Sound.steps_of_returned {r : Except Failure Bool} (h : sim.Sound)
    (hstep : Run.step sim = returned r sim') : ∃ e, sim.Steps r e sim' := by
  have hreturns := @Run.step_returns False sim h.queue h.dormant h.stop False.elim
  rw [hstep] at hreturns
  exact hreturns.of_returned

/-- Nothing moves in a run that is over. -/
theorem step_of_finished (h : sim.finished = true) : Run.step sim = .ok false sim := by
  unfold Run.step
  simp only [Act.bind_apply, Act.get_apply, if_pos h, Act.pure_apply]

end Simulation

end SwarmFlight
