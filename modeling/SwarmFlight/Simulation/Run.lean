import SwarmFlight.Simulation

/-!
# Running

Each step takes the next event from the queue and does what it says. Everything that was
sent meanwhile is then scheduled to arrive one latency later, except what the link loses
(`step`). When nothing is left before the stop time, the agents that still run are stopped
and the run is over. A step that breaks off leaves what was sent in the network.

`toEnd` steps to the end of the run.
-/

namespace SwarmFlight

/-- What is done in a run. -/
abbrev Run := EStateM Halt Simulation

namespace Run

/-! ## Single effects -/

/-- Change the world. -/
def setWorld (f : World Event → World Event) : Run Unit :=
  modify fun sim => { sim with world := f sim.world }

/-- Break off with a failure. -/
def fail {α : Type} (f : Failure) : Run α := throw (.failure f)

/-- Do something in the scene of the agent of an index. -/
def withCraft {α : Type} (index : Nat) (act : Act Event α) : Run α
  | ⟨settings, world, crafts, ledger, samplePeriod, stopTime, finished⟩ =>
    let simulation (world : World Event) (crafts : List Craft) : Simulation :=
      ⟨settings, world, crafts, ledger, samplePeriod, stopTime, finished⟩
    match crafts[index]? with
    | none => .error (.failure .invalidState) (simulation world crafts)
    | some ⟨agent, track⟩ =>
      match act ⟨agent, track, world⟩ with
      | .ok a scene =>
        .ok a (simulation scene.world (crafts.set index ⟨scene.agent, scene.track⟩))
      | .error h scene =>
        .error h (simulation scene.world (crafts.set index ⟨scene.agent, scene.track⟩))

/-- Schedule an event `delay` from now on. -/
def schedule (delay : Duration) (event : Event) : Run Unit := fun sim =>
  match sim.world.clock.add? delay with
  | none => .error .clockOverflow sim
  | some time => .ok () { sim with world := (sim.world.scheduleAt time event).2 }

/-! ## Events -/

/-- Compromise the agent of an index, if it is running, and note it in the ledger. -/
def compromise (index : Nat) : Run Unit := do
  let fired ← withCraft index do
    if (← Act.agent).stage = .running then Act.turn else return false
  if fired then
    let sim ← get
    match sim.ledger, sim.crafts[index]? with
    | some ledger, some craft =>
      match ledger.fire craft.agent.id sim.now with
      | .ok (_, ledger) => modify ({ · with ledger := some ledger })
      | .error f => fail f
    | _, _ => return ()

/-- Hand a datagram that arrives to the agent with the receiver's address. -/
def arrive (d : Datagram) : Run Unit := do
  let reached ← modifyGet fun sim =>
    let (reached, world) := sim.world.deliver d
    (reached, { sim with world })
  match reached with
  | none => return ()
  | some d =>
    match (← get).indexOf? d.receiver with
    | none => fail (.unknownAgent d.receiver)
    | some index => discard (withCraft index (Act.receive d.sender d.payload))

/-- Report the position of every agent, and drop the waypoints that have had their day. -/
def sample : Run Unit := do
  modify fun sim =>
    let now := sim.now
    let report (world : World Event) (c : Craft) : World Event :=
      world.reportPosition ⟨now, c.agent.id, c.track.positionAt now⟩
    { sim with
      world := sim.crafts.foldl report sim.world
      crafts := sim.crafts.map fun c => { c with track := c.track.prune now } }
  schedule (← get).samplePeriod .sample

/-- Do what an event says. -/
def dispatch : Event → Run Unit
  | .start index => withCraft index (Act.start (.duty index))
  | .duty index .compromise => compromise index
  | .duty index duty => withCraft index (Act.handle (.duty index) duty)
  | .arrival d => arrive d
  | .sample => sample

/-- Let everything that was sent arrive one latency from now on, if the link does not lose it. -/
def flush : Run Unit := do
  let survivors ← modifyGet fun sim =>
    let (survivors, world) := sim.world.collect
    (survivors, { sim with world })
  let latency := (← get).world.network.link.latency
  survivors.forM fun d => schedule latency (.arrival d)

/-- Stop every agent that is running, and end the run. -/
def tearDown : Run Unit := do
  modify ({ · with finished := true })
  (List.range (← get).crafts.length).forM fun index => withCraft index do
    if (← Act.agent).stage = .running then Act.stop
  let stopTime := (← get).stopTime
  setWorld (·.note (.tornDown stopTime))

/-- Take the next event from the queue. -/
def next : Run (Option (Entry Event)) :=
  modifyGet fun sim =>
    let (entry, queue) := sim.world.queue.pop
    (entry, { sim with world := { sim.world with queue } })

/-- Dispatch the next event; tells whether there was one. -/
def step : Run Bool := do
  if (← get).finished then return false
  match ← next with
  | none =>
    tearDown
    return false
  | some entry =>
    dispatch entry.event
    flush
    return true

/-- Dispatch events until there are none left, at most `n` of them. -/
def steps : Nat → Run Unit
  | 0 => throw .unfinished
  | n + 1 => do if ← step then steps n

/-- More events than a run can dispatch whose periods are not zero : each agent does each of its
duties at most once in a nanosecond, and each broadcast reaches every other agent once. -/
def bound (sim : Simulation) : Nat :=
  let instants := sim.stopTime.nanos + 2
  let agents := sim.crafts.length + 1
  3 * agents * agents * instants + sim.world.queue.size + sim.world.network.outbox.size

/-- Dispatch events to the end of the run. -/
def toEnd : Run Summary := do
  let sim ← get
  setWorld (·.note (.runStarted sim.crafts.length sim.settings.duration sim.settings.seed))
  steps (bound sim)
  let summary := (← get).summary
  let stats := summary.stats
  setWorld (·.note
    (.runFinished summary.dispatched stats.sent stats.delivered stats.lost))
  return summary

end Run

end SwarmFlight
