import SwarmFlight.Beacon

/-!
# Forces between agents

A follower is drawn to every leader it knows with a force as large as the distance, and
pushed away from every other follower with a force as large as the inverse of the distance.
A leader feels nothing. Peers that are too near, or not at a finite distance, exert no
force (`exerts`); `skipped` lists them.
-/

namespace SwarmFlight

/-- What acts on one agent. -/
structure Forces where
  /-- Sum of the pulls of leaders. -/
  attraction : Vec3
  /-- Sum of the pushes of followers. -/
  repulsion : Vec3

namespace Forces

/-- No force at all. -/
def none : Forces := ⟨Vec3.zero, Vec3.zero⟩

/-- Peers nearer than this, in metres, count as being at the same place. -/
def minDistance : Float := 1e-9

/-- Whether a peer at this distance exerts a force. -/
def exerts (distance : Float) : Bool := distance.isFinite && !(distance < minDistance)

/-- Add the force of one peer on a follower at `position`. -/
def addPeer (position : Vec3) (forces : Forces) (peer : Beacon) : Forces :=
  let offset := peer.position - position
  let distance := offset.length
  if exerts distance then
    let direction := offset / distance
    match peer.role with
    | .leader => { forces with attraction := forces.attraction + direction * distance }
    | .follower => { forces with repulsion := forces.repulsion + -direction * (1.0 / distance) }
  else forces

/-- The forces on an agent at `position`, from what it knows of its peers. -/
def acting (role : Role) (position : Vec3) (peers : List (Address × Beacon)) : Forces :=
  if role.isLeader then none
  else peers.foldl (fun forces peer => addPeer position forces peer.2) none

/-- A peer that exerts no force : who it is, its role and its distance. -/
structure Skipped where
  peer : Address
  role : Role
  distance : Float

/-- The peers of a follower at `position` that exert no force. -/
def skipped (role : Role) (position : Vec3) (peers : List (Address × Beacon)) : List Skipped :=
  if role.isLeader then []
  else peers.filterMap fun (peer, beacon) =>
    let distance := (beacon.position - position).length
    if exerts distance then Option.none else some ⟨peer, beacon.role, distance⟩

end Forces

end SwarmFlight
