import SwarmFlight.Simulation

/-!
# Building a run

`withPositions` makes a run of settings and start positions, and `atRandom` draws the
positions first. The settings are looked at before anything else is done; what can still go
wrong after that is that a time is out of range. All agents start from events on the queue,
the leader at once and the followers after their delay, and the first position sample is
taken at the start.
-/

namespace SwarmFlight

namespace Simulation

/-- The addresses of a run : the base address and the ones after it. -/
def addresses (s : Settings) : Except Failure (List Address) :=
  (List.range s.agentCount).mapM fun index =>
    match s.baseAddress.offset? index with
    | some id => .ok id
    | none => .error (.badSetting .addressRange)

/-- Plan the compromise of the agents with a host octet. -/
def planCompromise (hostOctet : UInt8) (due : Instant) (ids : List Address) : Ledger.Plan :=
  (Ledger.empty due).plan (fun id => id.hostOctet = hostOctet)
    (ids.mapIdx fun index id => (id, roleOf index))

/-- The events that a run starts with. -/
def firstEvents (agents : Nat) (followerStart : Instant) : List (Instant × Event) :=
  (.zero, .start 0) :: (List.range (agents - 1)).map (fun i => (followerStart, .start (i + 1))) ++
    [(.zero, .sample)]

/-- The queue that a run starts with. -/
def firstQueue (agents : Nat) (stopTime followerStart : Instant) : EventQueue Event :=
  (firstEvents agents followerStart).foldl (fun q (time, event) => (q.scheduleAt time event).2)
    (EventQueue.empty.stopAt stopTime)

/-- The agent of an index before it starts, at rest at a position. -/
def firstCraft (shared : AgentSettings) (ledger : Option Ledger) (index : Nat) (id : Address)
    (position : Vec3) : Craft :=
  let settings := { shared with compromiseAt := ledger.bind (·.dueFor id) }
  ⟨Agent.create id (roleOf index) settings, Track.restingAt position⟩

/-- What is done while a run is built, in view of the journal. -/
abbrev Building := EStateM Halt Journal

/-- The value of a result, or break off with its failure. -/
def Building.ofExcept {α : Type} : Except Failure α → Building α
  | .ok a => pure a
  | .error f => throw (.failure f)

/-- The ledger of a run, if its settings ask for a compromise. -/
def buildLedger (s : Settings) (ids : List Address) : Building (Option Ledger) := do
  let due ← Building.ofExcept s.compromiseTime
  match s.compromise, due with
  | some c, some due =>
    let plan := planCompromise c.hostOctet due ids
    modify (·.addAll plan.notices)
    let _ ← Building.ofExcept plan.added
    return some plan.ledger
  | _, _ => return none

/-- A run with a start position for each agent, the leader's first. -/
def withPositions (s : Settings) (positions : List Vec3) (telemetry : Telemetry) :
    Building Simulation := do
  Building.ofExcept s.validate
  if positions.length ≠ s.agentCount then throw (.failure (.badSetting .positionCount))
  let ids ← Building.ofExcept (addresses s)
  let ledger ← buildLedger s ids
  let shared ← Building.ofExcept s.forAgents
  let stopTime ← Building.ofExcept s.stopTime
  let followerStart ← Building.ofExcept s.followerStart
  let link ← Building.ofExcept s.link
  let samplePeriod ← Building.ofExcept s.samplePeriod
  let world : World Event := World.ofLink link telemetry (← get)
  return { settings := s
           world := { world with queue := firstQueue ids.length stopTime followerStart }
           crafts := (ids.zip positions).mapIdx fun index (id, position) =>
             firstCraft shared ledger index id position
           ledger
           samplePeriod
           stopTime
           finished := false }

/-- A run with the followers placed at random around the leader. -/
def atRandom (s : Settings) (telemetry : Telemetry) : Building Simulation := do
  Building.ofExcept s.validate
  match Placement.initialLayout s.seed s.spawnRadius s.followerCount.toNat with
  | .error h => throw h
  | .ok (layout, scatter) =>
    modify (·.add (.placed s.followerCount.toNat s.spawnRadius scatter.rejected))
    withPositions s layout telemetry

end Simulation

end SwarmFlight
