import SwarmFlight.Agent
import SwarmFlight.World

/-!
# The scene of an agent

An agent never waits : each of its actions runs to its end in a scene, which is the agent
itself, its track and the world that it shares with the others. An action may break off
with a `Halt`; what it did until then stays. Here are the single effects that actions are
made of.
-/

namespace SwarmFlight

/-- An agent with its track and the world that it shares with others. -/
structure Scene (ε : Type) where
  agent : Agent
  track : Track
  world : World ε

/-- What is done in a scene. -/
abbrev Act (ε : Type) := EStateM Halt (Scene ε)

namespace Act

variable {ε : Type}

/-- The agent as it is now. -/
def agent : Act ε Agent := return (← get).agent

/-- The agent's track as it is now. -/
def track : Act ε Track := return (← get).track

/-- The current time. -/
def clock : Act ε Instant := return (← get).world.clock

/-- Change the agent. -/
def setAgent (f : Agent → Agent) : Act ε Unit := modify fun s => { s with agent := f s.agent }

/-- Change the world. -/
def setWorld (f : World ε → World ε) : Act ε Unit := modify fun s => { s with world := f s.world }

/-- Tell something. -/
def note (n : Notice) : Act ε Unit := setWorld (·.note n)

/-- Break off with a failure. -/
def fail {α : Type} (f : Failure) : Act ε α := throw (.failure f)

/-- The value of a result, or break off with its failure. -/
def ofExcept {α : Type} : Except Failure α → Act ε α
  | .ok a => pure a
  | .error f => fail f

/-- Schedule an event `delay` from now on. -/
def schedule [Ranked ε] (delay : Duration) (event : ε) : Act ε EventId := fun s =>
  match s.world.clock.add? delay with
  | none => .error .clockOverflow s
  | some time =>
    let (id, world) := s.world.scheduleAt time event
    .ok id { s with world }

/-- Schedule a duty `delay` from now on; the one before it must not be pending any more. -/
def scheduleDuty [Ranked ε] (wrap : Duty → ε) (delay : Duration) (duty : Duty) : Act ε Unit := do
  if ((← agent).slots.get duty).isSome then throw .tickPending
  let id ← schedule delay (wrap duty)
  setAgent fun a => { a with slots := a.slots.set duty (some id) }

/-- Forget the number of a duty. -/
def clearSlot (duty : Duty) : Act ε Unit :=
  setAgent fun a => { a with slots := a.slots.set duty none }

/-- Report the agent's colour. -/
def reportColor (color : Vec3) : Act ε Unit := do
  let now ← clock
  let a ← agent
  setWorld (·.reportColor ⟨now, a.id, color⟩)

end Act

end SwarmFlight
