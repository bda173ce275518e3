import SwarmFlight.Forces
import SwarmFlight.Track

/-!
# Motion

An integrator turns forces into a change of velocity over one time step and into the
waypoint that the agent proposes for the end of the step (`advance`). The velocity carried
into the next step is then dampened : not at all up to a lower speed, by a fraction that
rises in a straight line up to an upper speed, and by the full fraction beyond it. The full
fraction is half the time step in seconds and at most 1, so that an agent is never turned
round (`dampeningFactor`).
-/

namespace SwarmFlight

/-- Gains, dampening thresholds and time step of one agent. -/
structure Integrator where
  attractionGain : Float
  repulsionGain : Float
  /-- Speed up to which nothing is dampened. -/
  minDampen : Float
  /-- Speed beyond which dampening is full. -/
  maxDampen : Float
  step : Duration

/-- What one time step brings. -/
structure MotionStep where
  acceleration : Vec3
  /-- The velocity after the step, dampened. -/
  velocity : Vec3
  /-- Where the agent will be at the end of the step. -/
  waypoint : Waypoint

namespace Integrator

/-- The usual lower speed, in metres per second. -/
def defaultMinDampen : Float := 0.2

/-- The usual upper speed, in metres per second. -/
def defaultMaxDampen : Float := 1.0

/-- The fraction of the velocity that full dampening takes away in one second. -/
def maxDampenPerSecond : Float := 0.5

/-- The mass of an agent. -/
def mass : Float := 1.0

/-- The acceleration under some forces. -/
def acceleration (i : Integrator) (f : Forces) : Vec3 :=
  (f.attraction * i.attractionGain + f.repulsion * i.repulsionGain) / mass

/-- The full dampening fraction. -/
def fullDampening (i : Integrator) : Float :=
  let fraction := maxDampenPerSecond * i.step.toSeconds
  if fraction < 1.0 then fraction else 1.0

/-- The fraction of the velocity that is taken away at a speed. -/
def dampeningFactor (i : Integrator) (speed : Float) : Float :=
  if speed > i.maxDampen then i.fullDampening
  else if speed > i.minDampen then
    let t := (speed - i.minDampen) / (i.maxDampen - i.minDampen)
    0.0 + (i.fullDampening - 0.0) * t
  else 0.0

/-- The velocity left after dampening. -/
def dampen (i : Integrator) (velocity : Vec3) : Vec3 :=
  velocity - velocity * i.dampeningFactor velocity.length

/-- One time step under some forces, from a velocity and a position at `now`. The waypoint is
reckoned with the velocity before dampening. There is none if the step ends out of range. -/
def advance (i : Integrator) (velocity : Vec3) (forces : Forces) (position : Vec3)
    (now : Instant) : Option MotionStep := do
  let arrival ← now.add? i.step
  let dt := i.step.toSeconds
  let acceleration := i.acceleration forces
  let velocity := velocity + acceleration * dt
  return { acceleration
           velocity := i.dampen velocity
           waypoint := ⟨arrival, position + velocity * dt⟩ }

end Integrator

end SwarmFlight
