import SwarmFlight.Agent.Settings
import SwarmFlight.Agent.Duty
import SwarmFlight.EventQueue
import SwarmFlight.PeerTable
import SwarmFlight.Track

/-!
# Agents

One vehicle of the swarm : its role, what it knows of its peers, how much it sent and
received, and which of its duties are scheduled. What an agent does is in
`SwarmFlight.Agent.Actions`.
-/

namespace SwarmFlight

/-- The numbers of an agent's scheduled duties. -/
structure Slots where
  broadcast : Option EventId := none
  compute : Option EventId := none
  compromise : Option EventId := none
  deriving DecidableEq

/-- The number of a scheduled duty. -/
def Slots.get (s : Slots) : Duty → Option EventId
  | .broadcast => s.broadcast
  | .compute => s.compute
  | .compromise => s.compromise

/-- Slots with the number of one duty replaced. -/
def Slots.set (s : Slots) (duty : Duty) (id : Option EventId) : Slots :=
  match duty with
  | .broadcast => { s with broadcast := id }
  | .compute => { s with compute := id }
  | .compromise => { s with compromise := id }

/-- The numbers of all scheduled duties. -/
def Slots.toList (s : Slots) : List EventId :=
  [s.broadcast, s.compute, s.compromise].filterMap id

/-- One vehicle of the swarm. -/
structure Agent where
  id : Address
  role : Role
  stage : LifeStage
  settings : AgentSettings
  velocity : Vec3
  table : PeerTable
  /-- Datagrams sent, by peer. -/
  sent : Tally
  /-- Beacons accepted, by peer. -/
  received : Tally
  slots : Slots
  /-- Whether the agent was turned into a leader. -/
  compromised : Bool

namespace Agent

/-- An agent that has not started yet. -/
def create (id : Address) (role : Role) (settings : AgentSettings) : Agent where
  id
  role
  stage := .uninitialized
  settings
  velocity := Vec3.zero
  table := PeerTable.empty id
  sent := Tally.empty
  received := Tally.empty
  slots := {}
  compromised := false

/-- What the agent would broadcast at an instant. -/
def beacon (a : Agent) (track : Track) (now : Instant) : Beacon := ⟨track.positionAt now, a.role⟩

end Agent

end SwarmFlight
