import SwarmFlight.Failure
import SwarmFlight.Vec3

/-!
# Tracks

A track is a list of waypoints that is never empty, in order of time. Between two waypoints
the position moves in a straight line at constant speed; before the first and after the
last one it rests. Waypoints are only added at the end, and never before the last one.

The list is kept newest first : the position at an instant is found by walking back to the
newest waypoint that is not later. `prune` drops what no position from an instant on
depends on.
-/

namespace SwarmFlight

/-- A position to be reached at an instant. -/
structure Waypoint where
  time : Instant
  position : Vec3
  deriving Inhabited

/-- The waypoints of one agent : the latest one and those before it, newest first. -/
structure Track where
  latest : Waypoint
  earlier : List Waypoint

namespace Track

/-- At rest from the start on. -/
def restingAt (position : Vec3) : Track := ⟨⟨.zero, position⟩, []⟩

/-- Every waypoint, newest first. -/
def waypoints (t : Track) : List Waypoint := t.latest :: t.earlier

/-- The number of waypoints. -/
def size (t : Track) : Nat := t.waypoints.length

/-- The point of the way from `a` to `b` at an instant between the two. -/
def between (a b : Waypoint) (now : Instant) : Vec3 :=
  let fraction := (now.sub a.time).toSeconds / (b.time.sub a.time).toSeconds
  a.position + (b.position - a.position) * fraction

/-- The position before `next`, by the waypoints before it, newest first. -/
def positionBefore (now : Instant) (next : Waypoint) : List Waypoint → Vec3
  | [] => next.position
  | w :: rest => if w.time ≤ now then between w next now else positionBefore now w rest

/-- The position at an instant. -/
def positionAt (t : Track) (now : Instant) : Vec3 :=
  if t.latest.time ≤ now then t.latest.position else positionBefore now t.latest t.earlier

/-- Add a waypoint at the end. -/
def add (t : Track) (w : Waypoint) : Except Failure Track :=
  if w.time < t.latest.time then .error (.waypointOutOfOrder w.time)
  else .ok ⟨w, t.latest :: t.earlier⟩

/-- The waypoints after an instant and the newest one that is not, newest first. -/
def keepFrom (now : Instant) : List Waypoint → List Waypoint
  | [] => []
  | w :: rest => if w.time ≤ now then [w] else w :: keepFrom now rest

/-- Drop the waypoints that positions at `now` and later do not depend on. -/
def prune (t : Track) (now : Instant) : Track :=
  if t.latest.time ≤ now then ⟨t.latest, []⟩ else ⟨t.latest, keepFrom now t.earlier⟩

end Track

end SwarmFlight
