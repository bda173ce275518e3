import SwarmFlight.Proofs.Run.Calls

/-!
# The history of a run

`Reaches` are the states of a run between any two calls, with everything that was dispatched
until then. A run that was sound in the beginning is sound in all of them (`Reaches.sound`).
-/

namespace SwarmFlight

/-- An event that was dispatched : when, in which role of its agent, and whether it succeeded. -/
structure Occurrence where
  time : Instant
  event : Event
  role : Option Role
  succeeded : Bool

namespace Simulation

variable {first sim sim' : Simulation} {log : List Occurrence}

/-- The role of the agent that an event concerns. -/
def roleFor (sim : Simulation) : Event → Option Role
  | .start index | .duty index _ => (sim.crafts[index]?).map (·.agent.role)
  | _ => none

/-- The dispatch of an entry by a step that returns `r`. -/
def occurrence (sim : Simulation) (e : Entry Event) (r : Except Failure Bool) : Occurrence :=
  ⟨e.due, e.event, sim.roleFor e.event, r.toBool⟩

/-- What a step that returns `r` dispatches. -/
def occurrences (sim : Simulation) (r : Except Failure Bool) : List Occurrence :=
  if sim.finished then []
  else
    match sim.world.queue.pop with
    | (some e, queue) => [⟨queue.clock, e.event, sim.roleFor e.event, r.toBool⟩]
    | (none, _) => []

/-- The states that a run reaches from its first one, and what was dispatched on the way. -/
inductive Reaches (first : Simulation) : List Occurrence → Simulation → Prop
  | first : Reaches first [] first
  | refuse {log : List Occurrence} {sim : Simulation} (a : Address) (h : Reaches first log sim) :
      Reaches first log (sim.refuse a)
  | step {log : List Occurrence} {sim sim' : Simulation} {r : Except Failure Bool}
      (h : Reaches first log sim) (step : Run.step sim = returned r sim') :
      Reaches first (log ++ sim.occurrences r) sim'

theorem Steps.occurrences_none {r : Except Failure Bool} (h : sim.Steps r none sim') :
    sim.occurrences r = [] := by
  unfold occurrences
  cases h with
  | still finished => rw [if_pos finished]
  | ended unfinished popped => rw [unfinished, popped]; rfl

theorem Steps.occurrences_some {r : Except Failure Bool} {e : Entry Event}
    (h : sim.Steps r (some e) sim') :
    sim.occurrences r = [sim.occurrence e r] := by
  obtain ⟨q, _, _, unfinished, popped, takes, -⟩ := h.dispatched
  unfold occurrences occurrence
  rw [unfinished, popped, ← takes.clock]
  rfl

/-- A step of a run in which an entry comes before all others and before the stop time. -/
theorem Steps.takes_first {r : Except Failure Bool} {e : Option (Entry Event)} {a : Entry Event}
    {rest : List (Entry Event)} (h : sim.Steps r e sim') (hs : sim.Sound)
    (hf : sim.finished = false) (hlive : sim.world.queue.live.Perm (a :: rest))
    (hfirst : ∀ x ∈ rest, x.before a = false)
    (hearly : a.due < sim.stopTime) : e = some a := by
  cases e with
  | none =>
    cases h with
    | still finished => exact absurd finished (by rw [hf]; exact nofun)
    | ended _ _ _ late =>
      have hlate := late a (hlive.mem_iff.2 List.mem_cons_self)
      exact absurd ((EventQueue.stopsBy_iff hs.stop).1 hlate) (Duration.not_le.2 hearly)
  | some e =>
    obtain ⟨q, takes, -⟩ := h.leads
    rw [(takes.eq_of_first hlive hfirst).1]

theorem Reaches.sound (h : first.Reaches log sim) (hs : first.Sound) : sim.Sound := by
  induction h with
  | first => exact hs
  | @refuse log sim a h ih =>
    obtain ⟨refused, heq⟩ := sim.refuse_eq a
    rw [heq]
    exact ih.withRefused refused
  | step h step ih =>
    obtain ⟨e, hsteps⟩ := ih.steps_of_returned step
    exact hsteps.sound ih

/-- What every refusal and every step of a sound run keeps holds in all states that are reached. -/
theorem Reaches.induction {P : List Occurrence → Simulation → Prop} (h : first.Reaches log sim)
    (hs : first.Sound) (hfirst : P [] first)
    (hrefuse : ∀ log sim refused, P log sim → P log (sim.withRefused refused))
    (hstep : ∀ log sim sim' r e, sim.Sound → sim.Steps r e sim' → P log sim →
      P (log ++ sim.occurrences r) sim') : P log sim := by
  induction h with
  | first => exact hfirst
  | @refuse log sim a h ih =>
    obtain ⟨refused, heq⟩ := sim.refuse_eq a
    rw [heq]
    exact hrefuse _ _ _ ih
  | step h step ih =>
    have hsound := h.sound hs
    obtain ⟨e, hsteps⟩ := hsound.steps_of_returned step
    exact hstep _ _ _ _ e hsound hsteps ih

theorem Reaches.stopTime_eq (h : first.Reaches log sim) (hs : first.Sound) :
    sim.stopTime = first.stopTime := by
  refine @Reaches.induction first sim log (fun _ sim => sim.stopTime = first.stopTime) h hs rfl
    (fun _ _ _ hp => hp) fun _ sim _ _ e _ hsteps hp => ?_
  cases e with
  | none =>
    cases hsteps with
    | still => exact hp
    | ended _ _ _ _ ends => exact ends.stopTime.trans hp
  | some e =>
    obtain ⟨_, -, -, _, _, -, hleads, -⟩ := hsteps.leads
    exact hleads.stopTime.trans hp

theorem Reaches.refuseAll (h : first.Reaches log sim) (as : List Address) :
    first.Reaches log (sim.refuseAll as) := by
  induction as generalizing sim with
  | nil => exact h
  | cons a rest ih => exact ih (.refuse a h)

/-- Calls that return lead on from a state that was reached. -/
theorem Reaches.calls (h : first.Reaches log sim) (refused : Nat → List Address) {n : Nat}
    (hreturned : ∀ k < n, ∃ r sim', call refused sim k = returned r sim') :
    ∃ log', first.Reaches (log ++ log') (before refused sim n) := by
  induction n with
  | zero => exact ⟨[], by rw [List.append_nil]; exact h.refuseAll _⟩
  | succ n ih =>
    obtain ⟨log', hn⟩ := ih fun k hk => hreturned k (Nat.lt_succ_of_lt hk)
    obtain ⟨r, sim', hcall⟩ := hreturned n (Nat.lt_succ_self n)
    refine ⟨log' ++ (before refused sim n).occurrences r, ?_⟩
    rw [← List.append_assoc, before, show Run.step _ = returned r sim' from hcall,
      leftBy_returned]
    exact (Reaches.step hn hcall).refuseAll _

end Simulation

end SwarmFlight
