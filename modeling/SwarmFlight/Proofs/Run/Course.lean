import SwarmFlight.Proofs.Run.Links
import SwarmFlight.Proofs.Run.Timetable

/-!
# The course of a run in which nothing fails

`Proceeds` are the states of a run that goes on while no address of an agent is refused. Every
move then dispatches an event that has its effect. A run that is over has proceeded to a state
from which it came to its end (`Reaches.exists_closes`), and runnable settings have such a run
(`exists_whole_run`). The clock never gets past the stop time (`Proceeds.clock_le`), and the
timetable is kept on the way (`Proceeds.onSchedule`).
-/

namespace SwarmFlight

namespace Simulation

variable {first sim sim' : Simulation} {log : List Occurrence} {e : Entry Event}
  {r : Except Failure Bool} {t : Timetable}

/-- The states of a run that goes on and in which no address of an agent is refused, with what was
dispatched until then. -/
inductive Proceeds (first : Simulation) : List Occurrence → Simulation → Prop
  | first (underway : first.Underway) : Proceeds first [] first
  | refuse {log : List Occurrence} {sim : Simulation} (a : Address) (h : Proceeds first log sim) :
      Proceeds first log (sim.refuse a)
  | move {log : List Occurrence} {sim sim' : Simulation} {e : Entry Event}
      (h : Proceeds first log sim) (allowed : sim.Allows) (moves : sim.Moves e (.ok true) sim')
      (underway : sim'.Underway) : Proceeds first (log ++ [sim.occurrence e (.ok true)]) sim'

theorem Proceeds.underway (h : first.Proceeds log sim) : sim.Underway := by
  induction h with
  | first underway => exact underway
  | refuse a _ ih => exact ih.refuse a
  | move _ _ _ underway => exact underway

/-- A move fails only if an address is refused. -/
theorem Moves.eq_ok (h : sim.Moves e r sim') (hallowed : sim.Allows) : r = .ok true := by
  cases h with
  | refused _ _ _ _ craft refused =>
    rw [hallowed _ (Fleet.mem_ids craft)] at refused
    cases refused
  | went => rfl

/-- What every run does that goes on, if no address of an agent is refused in the end. -/
theorem Proceeds.of_move (h : sim.Allows → first.Proceeds log sim) (hm : sim.Moves e r sim')
    (hu : sim'.Underway) (hallowed : sim'.Allows) :
    first.Proceeds (log ++ [sim.occurrence e r]) sim' := by
  have hbefore := hallowed.of_same hm.roster_eq hm.refused_eq
  cases hm.eq_ok hbefore
  exact .move (h hbefore) hbefore hm hu

/-- A run that is over has come to its end from a state in which it still went on. -/
theorem Reaches.exists_closes (h : first.Reaches log sim) (hu : first.Underway)
    (hf : sim.finished = true) (hallowed : sim.Allows) : ∃ last ended refused,
      first.Proceeds log last ∧ last.Closes ended ∧ sim = ended.withRefused refused := by
  have hall := h.induction_to_end (P := fun log sim => sim.Allows → first.Proceeds log sim)
    (Q := fun log sim => sim.Allows → ∃ last ended refused,
      first.Proceeds log last ∧ last.Closes ended ∧ sim = ended.withRefused refused)
    hu (fun _ => .first hu) (fun _ _ a _ hp ha => .refuse a (hp ha.of_refuse))
    (fun _ _ _ _ _ _ hm hu' hp ha => .of_move hp hm hu' ha)
    (fun _ last ended _ hc hp ha =>
      ⟨last, ended, _, hp (ha.of_same hc.roster_eq hc.refused_eq), hc, rfl⟩)
    fun _ sim a _ hq ha => ?_
  · rcases hall with ⟨hu, -⟩ | ⟨-, hq⟩
    · exact nomatch hu.unfinished.symm.trans hf
    · exact hq hallowed
  · obtain ⟨last, ended, _, hp, hc, rfl⟩ := hq ha.of_refuse
    obtain ⟨refused, heq⟩ := Simulation.refuse_eq (ended.withRefused _) a
    exact ⟨last, ended, refused, hp, hc, heq⟩

/-- Runnable settings of which a run can be built have a whole run in which no address of an agent
is refused. -/
theorem exists_whole_run {s : Settings} {positions : List Vec3} {telemetry : Telemetry}
    {j : Journal} (hrunnable : s.Runnable)
    (hbuilds : (Building.value? (withPositions s positions telemetry j)).isSome) :
    ∃ first j' log last, withPositions s positions telemetry j = .ok first j' ∧
      first.Reaches log last ∧ last.finished = true ∧ last.Allows := by
  cases hbuilt : withPositions s positions telemetry j with
  | error f j' =>
    rw [hbuilt] at hbuilds
    cases hbuilds
  | ok first j' =>
    obtain ⟨moves, last, hrun, hfinished, hrefused⟩ :=
      (built_of_withPositions hbuilt).exists_travels hrunnable
    refine ⟨first, j', _, last, rfl, hrun.reaches, hfinished, fun a _ => ?_⟩
    rw [hrefused]
    rfl

/-! ## Times -/

/-- The clock goes on to what is dispatched. -/
theorem Moves.clock_eq (h : sim.Moves e r sim') : sim'.world.clock = e.due := by
  cases h with
  | refused _ takes => exact takes.clock
  | went _ takes _ effect => exact (clock_flushed _).trans (effect.clock_eq takes)

theorem Moves.stopTime_eq (h : sim.Moves e r sim') : sim'.stopTime = sim.stopTime := by
  cases h with
  | refused => rfl
  | went _ _ _ effect =>
    obtain ⟨_, hleads⟩ := effect.leads
    exact hleads.stopTime

theorem Moves.early (h : sim.Moves e r sim') : e.due < sim.stopTime := by
  cases h with
  | refused _ _ early => exact early
  | went _ _ early => exact early

theorem Proceeds.clock_le (h : first.Proceeds log sim)
    (hfirst : first.world.clock ≤ first.stopTime) : sim.world.clock ≤ sim.stopTime := by
  induction h with
  | first => exact hfirst
  | @refuse _ sim a _ ih =>
    obtain ⟨_, heq⟩ := sim.refuse_eq a
    rw [heq]
    exact ih
  | move _ _ moves _ _ =>
    rw [moves.clock_eq, moves.stopTime_eq]
    exact Nat.le_of_lt moves.early

theorem Proceeds.onSchedule (h : first.Proceeds log sim) (hfirst : OnSchedule t [] first) :
    OnSchedule t log sim := by
  induction h with
  | first => exact hfirst
  | refuse a _ ih => exact ih.refuse a
  | move _ allowed moves _ ih => exact ih.move allowed moves

end Simulation

end SwarmFlight
