import SwarmFlight.Failure
import SwarmFlight.Random
import SwarmFlight.Vec3

/-!
# Placement

Followers start at random points inside a sphere around the leader. Candidates are drawn
from the cube around the sphere (`candidate?`) and kept if they lie inside and are new
(`accepts`), until there are enough of them (`draw`). If that breaks off, the reason comes
with the generator as it is then; a placement gives the reason only (`scatter`). The leader
starts at the origin (`initialLayout`).
-/

namespace SwarmFlight

namespace Placement

/-- The largest radius that followers can be placed in, in metres. -/
def maxSpawnRadius : Float := 1.0e6

/-- Whether a radius can be used, and what is wrong with it. -/
def checkRadius (radius : Float) : Except Complaint Unit :=
  if !radius.isFinite || radius ≤ 0.0 then .error .spawnRadiusSign
  else if radius > maxSpawnRadius then .error .spawnRadiusSize
  else .ok ()

/-- The next candidate : three numbers drawn one after the other from the edge of the cube. -/
def candidate? (radius : Float) (g : Generator) : Option (Vec3 × Generator) := do
  let (x, g) ← g.range? (-radius) radius
  let (y, g) ← g.range? (-radius) radius
  let (z, g) ← g.range? (-radius) radius
  return (⟨x, y, z⟩, g)

/-- Whether a candidate lies inside the sphere and is none of the points kept so far. -/
def accepts (radius : Float) (kept : List Vec3) (candidate : Vec3) : Bool :=
  candidate.length < radius && !kept.contains candidate

/-- Points placed so far and what it took. -/
structure Scatter where
  /-- The points kept, the newest first. -/
  kept : List Vec3
  /-- How many candidates were not kept. -/
  rejected : Nat
  generator : Generator

/-- The points in the order in which they were drawn. -/
def Scatter.points (s : Scatter) : List Vec3 := s.kept.reverse

/-- The largest number of candidates that are looked at. About half of all candidates are kept. -/
def candidateLimit : Nat := 4611686018427387904

/-- Take up candidates until `missing` more points are kept, at most `bound` of them. -/
def Scatter.fill (radius : Float) : Nat → Nat → Scatter → Except (Halt × Generator) Scatter
  | _, 0, s => .ok s
  | 0, _ + 1, s => .error (.unfinished, s.generator)
  | bound + 1, missing + 1, s =>
    match candidate? radius s.generator with
    | none => .error (.emptyRange, s.generator)
    | some (c, g) =>
      if accepts radius s.kept c then
        fill radius bound missing { s with kept := c :: s.kept, generator := g }
      else
        fill radius bound (missing + 1) { s with rejected := s.rejected + 1, generator := g }

/-- Draw `count` distinct points strictly inside the sphere, or give the reason why there are none
and the generator as it is then. -/
def draw (g : Generator) (radius : Float) (count : Nat) : Except (Halt × Generator) Scatter :=
  match checkRadius radius with
  | .error c => .error (.failure (.badSetting c), g)
  | .ok () => Scatter.fill radius candidateLimit count ⟨[], 0, g⟩

/-- `count` distinct points strictly inside the sphere. -/
def scatter (g : Generator) (radius : Float) (count : Nat) : Except Halt Scatter :=
  (draw g radius count).mapError Prod.fst

/-- The origin, for the leader, and a point for each follower. -/
def initialLayout (seed : UInt64) (radius : Float) (followers : Nat) :
    Except Halt (List Vec3 × Scatter) := do
  let s ← scatter (Generator.ofSeed seed) radius followers
  return (Vec3.zero :: s.points, s)

end Placement

end SwarmFlight
