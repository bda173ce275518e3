/-!
# The duties and the life of an agent

An agent schedules three kinds of events for itself, and it is created, runs and stops once.
-/

namespace SwarmFlight

/-- What an agent schedules for itself. -/
inductive Duty where
  /-- Make the own position and role known to all peers. -/
  | broadcast
  /-- Compute the forces and move on by one time step. -/
  | compute
  /-- Turn into a leader. -/
  | compromise
  deriving DecidableEq, Repr

/-- The name of a duty. -/
def Duty.name : Duty → String
  | .broadcast => "Broadcast"
  | .compute => "Compute"
  | .compromise => "Compromise"

/-- The rank of a duty among those due at the same time : the role changes first, so that a step
computed at the same instant already has the new role. -/
def Duty.rank : Duty → Nat
  | .compromise => 0
  | .broadcast => 1
  | .compute => 1

/-- Where an agent is in its life. -/
inductive LifeStage where
  /-- Created, without an endpoint. -/
  | uninitialized
  /-- With an endpoint and its duties scheduled. -/
  | running
  /-- Without an endpoint again, for good. -/
  | stopped
  deriving DecidableEq, Repr

/-- The name of a stage of life. -/
def LifeStage.name : LifeStage → String
  | .uninitialized => "Uninitialized"
  | .running => "Running"
  | .stopped => "Stopped"

end SwarmFlight
