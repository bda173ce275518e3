import SwarmFlight.Notice

/-!
# Telemetry

Agents report the colours they take on, and the run reports sampled positions. A recorder
keeps every report in order; the other kind of sink turns each report into a notice.
-/

namespace SwarmFlight

/-- An agent took on a colour. -/
structure ColorRecord where
  time : Instant
  id : Address
  color : Vec3

/-- An agent was at a position. -/
structure PositionRecord where
  time : Instant
  id : Address
  position : Vec3

/-- The colour of a leader at its start, as red, green and blue. -/
def leaderColor : Vec3 := ⟨0.3, 0.7, 1.0⟩

/-- The colour of an agent that was compromised. -/
def compromisedColor : Vec3 := ⟨1.0, 0.2, 0.2⟩

/-- Reports kept in the order in which they came. -/
structure Recording where
  colors : Array ColorRecord := #[]
  positions : Array PositionRecord := #[]

/-- The positions of one agent. -/
def Recording.track (r : Recording) (id : Address) : List PositionRecord :=
  r.positions.toList.filter (·.id = id)

/-- Where reports go. -/
inductive Telemetry where
  /-- They are kept. -/
  | recorder (recording : Recording)
  /-- They are noted in the journal. -/
  | journal

namespace Telemetry

/-- What is kept. -/
def recording : Telemetry → Recording
  | recorder r => r
  | journal => {}

/-- Report a colour : the sink afterwards and what is to be noted. -/
def reportColor (t : Telemetry) (r : ColorRecord) : Telemetry × List Notice :=
  match t with
  | recorder kept => (recorder { kept with colors := kept.colors.push r }, [])
  | journal => (journal, [.color r.time r.id r.color])

/-- Report a position : the sink afterwards and what is to be noted. -/
def reportPosition (t : Telemetry) (r : PositionRecord) : Telemetry × List Notice :=
  match t with
  | recorder kept => (recorder { kept with positions := kept.positions.push r }, [])
  | journal => (journal, [.position r.time r.id r.position])

end Telemetry

end SwarmFlight
