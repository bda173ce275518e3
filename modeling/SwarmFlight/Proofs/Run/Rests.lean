import SwarmFlight.Proofs.Run.Acts

/-!
# Acts that do not move the agent

Every act but a step leaves the track and the velocity of the agent as they are. Such acts
are made of effects that do (`Rests.bind`), so this is shown along the code of each.
-/

namespace SwarmFlight

namespace Act

variable {ε α β : Type}

/-- Acts that leave the track and the velocity of the agent as they are. -/
def Rests (x : Act ε α) : Prop := ∀ s : Scene ε,
  Returns False (fun _ s' => s'.track = s.track ∧ s'.agent.velocity = s.agent.velocity) (x s)

namespace Rests

theorem bind {x : Act ε α} {f : α → Act ε β} (hx : Rests x) (hf : ∀ a, Rests (f a)) :
    Rests (x >>= f) := fun s =>
  (hx s).bind (fun a s' h => (hf a s').mono fun _ _ h' => ⟨h'.1.trans h.1, h'.2.trans h.2⟩)
    fun _ _ h => h

theorem pure (a : α) : Rests (Pure.pure a : Act ε α) := fun _ => ⟨rfl, rfl⟩

theorem agent : Rests (Act.agent : Act ε Agent) := fun _ => ⟨rfl, rfl⟩

theorem track : Rests (Act.track : Act ε Track) := fun _ => ⟨rfl, rfl⟩

theorem clock : Rests (Act.clock : Act ε Instant) := fun _ => ⟨rfl, rfl⟩

theorem get : Rests (MonadState.get : Act ε (Scene ε)) := fun _ => ⟨rfl, rfl⟩

theorem setWorld (f : World ε → World ε) : Rests (Act.setWorld f) := fun _ => ⟨rfl, rfl⟩

theorem setAgent {f : Agent → Agent} (hf : ∀ a, (f a).velocity = a.velocity) :
    Rests (Act.setAgent f : Act ε Unit) := fun s => ⟨rfl, hf s.agent⟩

theorem throw (h : Halt) : Rests (throw h : Act ε α) := fun _ => by
  cases h with
  | failure f => exact ⟨rfl, rfl⟩
  | _ => exact id

theorem ofExcept (r : Except Failure α) : Rests (Act.ofExcept r : Act ε α) := by
  cases r with
  | ok a => exact pure a
  | error f => exact throw (.failure f)

theorem note (n : Notice) : Rests (Act.note n : Act ε Unit) := setWorld _

theorem reportColor (color : Vec3) : Rests (Act.reportColor color : Act ε Unit) :=
  clock.bind fun _ => agent.bind fun _ => setWorld _

theorem clearSlot (duty : Duty) : Rests (Act.clearSlot duty : Act ε Unit) := setAgent fun _ => rfl

theorem sendTo (payload : List UInt8) (peer : Address) :
    Rests (Act.sendTo payload peer : Act ε Unit) :=
  agent.bind fun _ => (ofExcept _).bind fun _ => (setWorld _).bind fun _ => agent.bind fun _ =>
    (ofExcept _).bind fun _ => setAgent fun _ => rfl

theorem sendFrom (payload : List UInt8) (first n : Nat) :
    Rests (Act.sendFrom payload first n : Act ε Unit) := by
  induction n generalizing first with
  | zero => exact pure _
  | succ n ih =>
    refine agent.bind fun a => ?_
    dsimp only
    split
    · split
      · exact (sendTo _ _).bind fun _ => ih _
      · exact ih _
    · exact ih _

theorem turn : Rests (Act.turn : Act ε Bool) := by
  refine (clearSlot _).bind fun _ => agent.bind fun a => ?_
  split
  · exact pure _
  · exact clock.bind fun _ => bind (setAgent fun _ => rfl) fun _ => (reportColor _).bind fun _ =>
      (note _).bind fun _ => pure _

theorem receive (sender : Address) (payload : List UInt8) :
    Rests (Act.receive sender payload : Act ε Bool) := by
  refine agent.bind fun a => ?_
  split
  · exact (note _).bind fun _ => pure _
  · split
    · exact (note _).bind fun _ => pure _
    · split
      · exact (note _).bind fun _ => pure _
      · exact (ofExcept _).bind fun _ => bind (setAgent fun _ => rfl) fun _ =>
          (ofExcept _).bind fun _ => bind (setAgent fun _ => rfl) fun _ => pure _

variable [Ranked ε] {wrap : Duty → ε}

theorem schedule (delay : Duration) (event : ε) : Rests (Act.schedule delay event) := fun s => by
  unfold Act.schedule
  cases s.world.clock.add? delay with
  | none => exact id
  | some time => exact ⟨rfl, rfl⟩

theorem scheduleDuty (delay : Duration) (duty : Duty) :
    Rests (Act.scheduleDuty wrap delay duty) := by
  refine agent.bind fun a => ?_
  dsimp only
  split
  · exact (throw _).bind fun _ => (schedule _ _).bind fun _ => setAgent fun _ => rfl
  · exact (schedule _ _).bind fun _ => setAgent fun _ => rfl

theorem broadcast : Rests (Act.broadcast wrap) :=
  (clearSlot _).bind fun _ => clock.bind fun _ => agent.bind fun _ => track.bind fun _ =>
    (sendFrom _ _ _).bind fun _ => (note _).bind fun _ => scheduleDuty _ _

theorem start : Rests (Act.start wrap) := by
  have hfirst : ∀ (a : Agent) (now : Instant), Rests (scheduleFirst wrap a now) := by
    intro a now
    refine (scheduleDuty _ _).bind fun _ => (scheduleDuty _ _).bind fun _ => ?_
    dsimp only
    split
    · split
      · exact (scheduleDuty _ _).bind fun _ => note _
      · exact note _
    · exact note _
  have hbound : ∀ a : Agent, Rests (do
      Act.setAgent ({ · with stage := .running })
      let now ← Act.clock
      if a.role.isLeader then Act.reportColor leaderColor
      scheduleFirst wrap a now) := by
    intro a
    refine bind (setAgent fun _ => rfl) fun _ => clock.bind fun now => ?_
    dsimp only
    split
    · exact (reportColor _).bind fun _ => hfirst _ _
    · exact hfirst _ _
  refine agent.bind fun a => ?_
  dsimp only
  split
  · exact (throw _).bind fun _ => get.bind fun s => (ofExcept _).bind fun _ =>
      (setWorld _).bind fun _ => hbound a
  · exact get.bind fun s => (ofExcept _).bind fun _ => (setWorld _).bind fun _ => hbound a

/-- Of an agent's duties only its steps move it. -/
theorem handle {duty : Duty} (hduty : duty ≠ .compute) : Rests (Act.handle wrap duty) := by
  refine agent.bind fun a => ?_
  split
  · exact note _
  · cases duty with
    | broadcast => exact broadcast
    | compute => exact absurd rfl hduty
    | compromise => exact fun s => (turn s).of_discard fun _ _ h => h

end Rests

/-- An agent that is not running does none of its duties. -/
theorem handle_idle [Ranked ε] {wrap : Duty → ε} {duty : Duty} {s : Scene ε}
    (hidle : s.agent.stage ≠ .running) : Act.handle wrap duty s =
      .ok () { s with world := s.world.note (.ignored s.agent.id duty s.agent.stage) } := by
  simp only [Act.handle, bind_apply, agent_apply, if_pos hidle, note_apply]

theorem handle_broadcast [Ranked ε] {wrap : Duty → ε} {s : Scene ε}
    (hrun : s.agent.stage = .running) : Act.handle wrap .broadcast s = Act.broadcast wrap s := by
  simp only [Act.handle, bind_apply, agent_apply, hrun, ne_eq, not_true_eq_false, if_false]

theorem handle_compute [Ranked ε] {wrap : Duty → ε} {s : Scene ε}
    (hrun : s.agent.stage = .running) : Act.handle wrap .compute s = Act.compute wrap s := by
  simp only [Act.handle, bind_apply, agent_apply, hrun, ne_eq, not_true_eq_false, if_false]

/-- A running agent that is to turn does so, unless it is a leader already. -/
theorem handle_compromise [Ranked ε] {wrap : Duty → ε} {s : Scene ε}
    (hrun : s.agent.stage = .running) : Act.handle wrap .compromise s =
      .ok () (if s.agent.compromised || s.agent.role.isLeader then cleared s .compromise
        else turned s) := by
  simp only [Act.handle, bind_apply, agent_apply, hrun, ne_eq, not_true_eq_false, if_false]
  show EStateM.map (fun _ => ()) turn s = _
  unfold EStateM.map
  rw [turn_eq]
  cases s.agent.compromised || s.agent.role.isLeader <;> rfl

end Act

end SwarmFlight
