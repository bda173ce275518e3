import SwarmFlight.Telemetry

/-!
# How well a formation was kept

A recorded track is cut into frames, one for each instant at which there are records. A
frame holds one position for each agent, the one recorded last, in order of address
(`frames`). The leader is the lowest address of the whole track.

Three costs are added up : how far the mean distance of the followers from the leader is
from its target, how much the mean distance between followers varies from frame to frame,
and how fast agents move from one frame to the next. There is a score as soon as some frame
holds the leader and a follower.
-/

namespace SwarmFlight

/-- The distance that is aimed at and the weights of the three costs. -/
structure FormationWeights where
  targetDistance : Float
  leaderDistance : Float
  spacing : Float
  speed : Float

/-- The usual weights, for a distance of 7.5 metres. -/
def FormationWeights.usual : FormationWeights := ⟨7.5, 400.0, 400.0, 250.0⟩

/-- How well a formation was kept; less is better. -/
structure FormationScore where
  /-- The number of frames. -/
  frames : Nat
  /-- Mean over the frames of the mean distance from the leader. -/
  leaderDistance : Float
  /-- Mean deviation of the mean distance between followers. -/
  spacingDeviation : Float
  /-- Mean over the frames of the mean speed. -/
  speed : Float
  /-- The weighted sum of the three costs. -/
  total : Float

/-- What there is to tell about a score. -/
def FormationScore.notice (s : FormationScore) : Notice :=
  .scored s.frames s.leaderDistance s.spacingDeviation s.speed s.total

namespace Formation

/-! ## Frames -/

/-- The positions of some agents at one instant, in order of address. -/
structure Frame where
  time : Instant
  positions : List (Address × Vec3)

/-- Whether a record stands before another : by time and then by address. -/
def inOrder (a b : PositionRecord) : Bool :=
  a.time < b.time || (a.time = b.time && a.id.raw ≤ b.id.raw)

/-- Put a record before some records, in place of a first one of the same time and address. -/
def override (r : PositionRecord) : List PositionRecord → List PositionRecord
  | [] => [r]
  | s :: rest => if s.time = r.time ∧ s.id = r.id then r :: rest else r :: s :: rest

/-- One record for each time and address, the last one, in order of time and address. -/
def latest (records : List PositionRecord) : List PositionRecord :=
  (records.reverse.mergeSort inOrder).foldr override []

/-- Put a record before some frames, into the first one if it is of the same time. -/
def enter (r : PositionRecord) : List Frame → List Frame
  | [] => [⟨r.time, [(r.id, r.position)]⟩]
  | f :: rest =>
    if f.time = r.time then { f with positions := (r.id, r.position) :: f.positions } :: rest
    else ⟨r.time, [(r.id, r.position)]⟩ :: f :: rest

/-- The frames of a track, in order of time. -/
def frames (records : List PositionRecord) : List Frame := (latest records).foldr enter []

/-- The position of an agent in a frame. -/
def Frame.get? (f : Frame) (id : Address) : Option Vec3 :=
  (f.positions.find? (·.1 = id)).map Prod.snd

/-- The lowest address among some records. -/
def lowest : List PositionRecord → Option Address
  | [] => none
  | r :: rest => some (rest.foldl (fun a s => if s.id.raw < a.raw then s.id else a) r.id)

/-! ## Means -/

/-- The mean of some numbers, added up in order. -/
def mean (values : List Float) : Option Float :=
  if values.isEmpty then none
  else some (values.foldl (· + ·) 0.0 / Float.ofNat values.length)

/-- The mean distance of some numbers from their mean. -/
def meanDeviation (values : List Float) : Option Float := do
  let centre ← mean values
  mean (values.map fun v => (v - centre).abs)

/-- The distances of all pairs, each taken once, from the earlier to the later one. -/
def pairDistances : List Vec3 → List Float
  | [] => []
  | a :: rest => rest.map a.distanceTo ++ pairDistances rest

/-! ## The three costs of a frame -/

/-- The positions of a frame other than the leader's. -/
def Frame.followers (f : Frame) (leader : Address) : List Vec3 :=
  (f.positions.filter (·.1 ≠ leader)).map Prod.snd

/-- The mean distance of the followers from the leader. -/
def Frame.leaderDistance? (leader : Address) (f : Frame) : Option Float := do
  let position ← f.get? leader
  mean ((f.followers leader).map (·.distanceTo position))

/-- The mean distance between followers, in a frame that holds the leader. -/
def Frame.spacing? (leader : Address) (f : Frame) : Option Float := do
  let _ ← f.get? leader
  mean (pairDistances (f.followers leader))

/-- The speeds of the agents that two frames hold both. -/
def speeds (before after : Frame) : List Float :=
  let dt := (before.time.timeTo after.time).toSeconds
  after.positions.filterMap fun (id, position) =>
    (before.get? id).map fun start => position.distanceTo start / dt

/-- The mean speed of the agents that two frames hold both. -/
def speed? (before after : Frame) : Option Float := mean (speeds before after)

/-- Each frame with the next one. -/
def steps (fs : List Frame) : List (Frame × Frame) := fs.zip fs.tail

/-! ## The score -/

/-- The score of a track. -/
def score (weights : FormationWeights) (records : List PositionRecord) :
    Option FormationScore := do
  let leader ← lowest records
  let fs := frames records
  let leaderDistance ← mean (fs.filterMap (Frame.leaderDistance? leader))
  let spacingDeviation := (meanDeviation (fs.filterMap (Frame.spacing? leader))).getD 0.0
  let speed := (mean ((steps fs).filterMap fun (before, after) => speed? before after)).getD 0.0
  return {
    frames := fs.length
    leaderDistance
    spacingDeviation
    speed
    total := weights.spacing * spacingDeviation
      + weights.leaderDistance * (weights.targetDistance - leaderDistance).abs
      + weights.speed * speed }

end Formation

end SwarmFlight
