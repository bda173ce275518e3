import SwarmFlight.Motion

/-!
# Settings of an agent

What an agent is told when it is created : the addresses of its swarm, its periods, the
constants of its motion and when it is to be compromised.
-/

namespace SwarmFlight

/-- The settings of one agent. -/
structure AgentSettings where
  /-- The first address of the swarm. -/
  baseAddress : Address
  /-- The number of addresses of the swarm. -/
  agentCount : Nat
  /-- The time from one broadcast to the next. -/
  packetInterval : Duration
  /-- The time from one step to the next, and the length of a step. -/
  calculateInterval : Duration
  attractionGain : Float
  repulsionGain : Float
  minDampen : Float
  maxDampen : Float
  /-- When the agent is to turn into a leader, if it is. -/
  compromiseAt : Option Instant

namespace AgentSettings

/-- A swarm of two with the usual constants. -/
def usual : AgentSettings where
  baseAddress := Address.ofOctets 10 1 1 1
  agentCount := 2
  packetInterval := { nanos := 1500000000 }
  calculateInterval := { nanos := 10000000 }
  attractionGain := 1.0
  repulsionGain := 1.0
  minDampen := Integrator.defaultMinDampen
  maxDampen := Integrator.defaultMaxDampen
  compromiseAt := none

/-- How many addresses of the swarm there are below the top of the address range. -/
def peerCount (s : AgentSettings) : Nat := min s.agentCount (UInt32.size - s.baseAddress.raw.toNat)

/-- Every address of the swarm, in order. -/
def peers (s : AgentSettings) : List Address :=
  (List.range s.peerCount).filterMap s.baseAddress.offset?

/-- The integrator of the agent. -/
def integrator (s : AgentSettings) : Integrator where
  attractionGain := s.attractionGain
  repulsionGain := s.repulsionGain
  minDampen := s.minDampen
  maxDampen := s.maxDampen
  step := s.calculateInterval

end AgentSettings

end SwarmFlight
