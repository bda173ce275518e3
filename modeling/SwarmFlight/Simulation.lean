import SwarmFlight.Agent.Actions
import SwarmFlight.Ledger
import SwarmFlight.Settings

/-!
# A whole run

A simulation holds every agent of a run with its track, and the world that they share. The
agents have consecutive addresses, and the one of index 0 is the leader.

`now`, `craft?` and `summary` say what can be seen of a run from outside.
-/

namespace SwarmFlight

/-- What can happen in a run. -/
inductive Event where
  /-- The agent of an index starts. -/
  | start (index : Nat)
  /-- A duty of the agent of an index is due. -/
  | duty (index : Nat) (duty : Duty)
  /-- A datagram arrives. -/
  | arrival (datagram : Datagram)
  /-- The positions are sampled. -/
  | sample
  deriving DecidableEq

/-- Duties keep their rank; everything else happens after a compromise due at the same time. -/
instance : Ranked Event where
  rank
    | .duty _ duty => duty.rank
    | _ => 1

/-- An agent with its track. -/
structure Craft where
  agent : Agent
  track : Track

/-- A run under way. -/
structure Simulation where
  settings : Settings
  world : World Event
  /-- The agents in order of address, the leader first. -/
  crafts : List Craft
  /-- The compromises planned, if there are to be any. -/
  ledger : Option Ledger
  samplePeriod : Duration
  stopTime : Instant
  /-- Whether the agents were stopped. -/
  finished : Bool

/-- One agent at some point of a run. -/
structure CraftSummary where
  id : Address
  role : Role
  position : Vec3
  velocity : Vec3
  compromised : Bool
  sent : Nat
  received : Nat

/-- A run at some point. -/
structure Summary where
  time : Instant
  /-- Events dispatched so far. -/
  dispatched : Nat
  stats : Stats
  crafts : List CraftSummary

/-- An agent as it is at some time. -/
def Craft.summary (c : Craft) (now : Instant) : CraftSummary where
  id := c.agent.id
  role := c.agent.role
  position := c.track.positionAt now
  velocity := c.agent.velocity
  compromised := c.agent.compromised
  sent := c.agent.sent.total
  received := c.agent.received.total

namespace Simulation

/-- The role of the agent of an index. -/
def roleOf (index : Nat) : Role := if index = 0 then .leader else .follower

/-- The current time : the stop time once the run is over. -/
def now (sim : Simulation) : Instant :=
  if sim.finished then sim.stopTime else sim.world.clock

/-- The index of the agent with an address. -/
def indexOf? (sim : Simulation) (id : Address) : Option Nat :=
  let index := id.distanceFrom sim.settings.baseAddress
  if index < sim.crafts.length then some index else none

/-- The agent with an address and its track. -/
def craft? (sim : Simulation) (id : Address) : Option Craft :=
  (sim.indexOf? id).bind (sim.crafts[·]?)

/-- The run as it is now. -/
def summary (sim : Simulation) : Summary where
  time := sim.now
  dispatched := sim.world.queue.dispatched
  stats := sim.world.network.stats
  crafts := sim.crafts.map (Craft.summary · sim.now)

end Simulation

end SwarmFlight
