import SwarmFlight.Address
import SwarmFlight.Agent.Duty
import SwarmFlight.Duration
import SwarmFlight.Role
import SwarmFlight.Vec3

/-!
# Notices

A run tells what it does in notices. A notice says what happened to whom; its level, its
target and its wording are functions of that. A `Journal` keeps the notices that are at
least as severe as asked for.
-/

namespace SwarmFlight

/-- How severe a notice is. -/
inductive Level where
  | warn
  | info
  | debug
  | trace
  deriving DecidableEq, Repr

/-- Levels by number, the most severe first. -/
def Level.severity : Level → Nat
  | .warn => 0
  | .info => 1
  | .debug => 2
  | .trace => 3

/-- The name of a level. -/
def Level.name : Level → String
  | .warn => "WARN"
  | .info => "INFO"
  | .debug => "DEBUG"
  | .trace => "TRACE"

/-- Something that happened in a run. -/
inductive Notice where
  /-- Followers were placed. -/
  | placed (count : Nat) (radius : Float) (rejected : Nat)
  /-- A leader too near or too far away to attract. -/
  | leaderSkipped (peer : Address) (distance : Float)
  /-- A follower too near or too far away to repel. -/
  | followerSkipped (peer : Address) (distance : Float)
  /-- The link lost a datagram. -/
  | lost (sender receiver : Address)
  /-- A datagram arrived where nobody was. -/
  | unreachable (sender receiver : Address)
  /-- An endpoint was set up. -/
  | bound (address : Address)
  /-- An endpoint was given up. -/
  | closed (address : Address)
  /-- An agent took on a colour. -/
  | color (time : Instant) (id : Address) (color : Vec3)
  /-- An agent was at a position. -/
  | position (time : Instant) (id : Address) (position : Vec3)
  /-- A leader was singled out for a compromise. -/
  | leaderSelected (id : Address)
  /-- A compromise was planned. -/
  | planned (id : Address) (due : Instant)
  /-- A formation was scored. -/
  | scored (frames : Nat) (leaderDistance spacing speed total : Float)
  /-- An agent started. -/
  | started (id : Address) (role : Role) (time : Instant)
  /-- How much a stopping agent sent to a peer. -/
  | sentTo (id : Address) (count : Nat) (peer : Address)
  /-- How much a stopping agent received from a peer. -/
  | receivedFrom (id : Address) (count : Nat) (peer : Address)
  /-- An agent stopped. -/
  | stopped (id : Address) (role : Role) (sent received known : Nat)
  /-- An agent that is not running passed a duty over. -/
  | ignored (id : Address) (duty : Duty) (stage : LifeStage)
  /-- An agent made itself known. -/
  | broadcast (id : Address) (time : Instant)
  /-- An agent that is not running dropped a datagram. -/
  | notRunning (id sender : Address)
  /-- An agent dropped a datagram of its own. -/
  | ownDatagram (id : Address)
  /-- An agent dropped a datagram that is no beacon. -/
  | malformed (id : Address) (size : Nat) (sender : Address)
  /-- An agent moved on by one step. -/
  | steered (id : Address) (time : Instant) (acceleration : Vec3)
  /-- An agent turned into a leader. -/
  | compromised (id : Address) (time : Instant)
  /-- A run began. -/
  | runStarted (agents : Nat) (seconds : Float) (seed : UInt64)
  /-- A run ended. -/
  | runFinished (events sent delivered lost : Nat)
  /-- Every agent was stopped at the end of a run. -/
  | tornDown (time : Instant)

namespace Notice

/-- How severe a notice is. -/
def level : Notice → Level
  | leaderSkipped .. | leaderSelected .. => .warn
  | color .. | position .. | planned .. | started .. | stopped .. | compromised ..
  | runStarted .. | runFinished .. => .info
  | placed .. | bound .. | closed .. | scored .. | sentTo .. | receivedFrom .. | tornDown .. =>
    .debug
  | followerSkipped .. | lost .. | unreachable .. | ignored .. | broadcast .. | notRunning ..
  | ownDatagram .. | malformed .. | steered .. => .trace

/-- Who a notice is for : telemetry, or nobody in particular. -/
def target : Notice → String
  | color .. | position .. => "telemetry"
  | _ => ""

/-- Numbers separated by commas. -/
def commaList (parts : List String) : String := ",".intercalate parts

/-- The components of a vector. -/
def components (v : Vec3) : List String := [v.x, v.y, v.z].map shortestText

/-- The wording of a notice. -/
def message : Notice → String
  | placed count radius rejected =>
    s!"placed {count} followers within {shortestText radius} m ({rejected} samples rejected)"
  | leaderSkipped peer distance =>
    s!"follower sits on leader {peer.text} (distance {shortestText distance}), no attraction"
  | followerSkipped peer distance =>
    s!"skipping coincident peer {peer.text} at distance {shortestText distance}"
  | lost sender receiver => s!"lost datagram {sender.text} -> {receiver.text}"
  | unreachable sender receiver =>
    s!"no endpoint at {receiver.text}, dropping datagram from {sender.text}"
  | bound a => s!"bound endpoint {a.text}"
  | closed a => s!"closed endpoint {a.text}"
  | color time id c =>
    commaList (["color", shortestText time.toSeconds, id.text] ++ components c)
  | position time id p => commaList ([shortestText time.toSeconds, id.text] ++ components p)
  | leaderSelected id => s!"compromise policy selected leader {id.text}, ignoring"
  | planned id due => s!"planned role compromise of {id.text} at {due.text}"
  | scored frames leaderDistance spacing speed total =>
    s!"formation over {frames} frames: leader distance {fixedText 3 leaderDistance}, " ++
      s!"spacing deviation {fixedText 3 spacing}, speed {fixedText 3 speed}, " ++
      s!"error {fixedText 3 total}"
  | started id role time => s!"agent {id.text} started as {role.text} at {time.text}"
  | sentTo id count peer => s!"{id.text} sent {count} packets to {peer.text}"
  | receivedFrom id count peer => s!"{id.text} received {count} packets from {peer.text}"
  | stopped id role sent received known =>
    s!"agent {id.text} stopped as {role.text}: {sent} sent, {received} received, " ++
      s!"{known} peers known"
  | ignored id duty stage => s!"agent {id.text} ignoring {duty.name} while {stage.name}"
  | broadcast id time => s!"{id.text} broadcast at {time.text}"
  | notRunning id sender => s!"{id.text} not running, dropping datagram from {sender.text}"
  | ownDatagram id => s!"{id.text} dropping own datagram"
  | malformed id size sender => s!"{id.text} dropping {size} byte datagram from {sender.text}"
  | steered id time a =>
    s!"{id.text} at {time.text}: accel ({fixedText 4 a.x}, {fixedText 4 a.y}, {fixedText 4 a.z})"
  | compromised id time =>
    s!"agent {id.text} compromised at {time.text}, now asserting leadership"
  | runStarted agents seconds seed =>
    s!"starting run: {agents} agents, {shortestText seconds}s, seed {seed.toNat}"
  | runFinished events sent delivered missing =>
    s!"run finished after {events} events: {sent} datagrams sent, {delivered} delivered, " ++
      s!"{missing} lost"
  | tornDown time => s!"teardown complete at {time.text}"

end Notice

/-- The notices of a run at least as severe as some level, if any are asked for at all. -/
structure Journal where
  threshold : Option Level
  /-- The notices kept, the newest first. -/
  kept : List Notice

namespace Journal

/-- Nothing has happened yet. -/
def ofThreshold (threshold : Option Level) : Journal := ⟨threshold, []⟩

/-- Whether notices of a level are kept. -/
def keeps (j : Journal) (level : Level) : Bool :=
  match j.threshold with
  | some threshold => level.severity ≤ threshold.severity
  | none => false

/-- Take a notice down, if it is severe enough. -/
def add (j : Journal) (n : Notice) : Journal :=
  if j.keeps n.level then { j with kept := n :: j.kept } else j

/-- Take some notices down, in order. -/
def addAll (j : Journal) (ns : List Notice) : Journal := ns.foldl add j

/-- The notices kept, in the order in which they came. -/
def notices (j : Journal) : List Notice := j.kept.reverse

end Journal

end SwarmFlight
