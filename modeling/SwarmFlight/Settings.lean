import SwarmFlight.Agent.Settings
import SwarmFlight.Network
import SwarmFlight.Placement

/-!
# Settings of a run

All times are given in seconds as numbers. `validate` looks at the numbers and names the
first thing that is wrong with them; the functions after it turn the numbers into instants
and durations, which fails for numbers that no duration is near to.
-/

namespace SwarmFlight

/-- Which agent is to be compromised and when. -/
structure CompromiseSetting where
  /-- Seconds from the start of the run. -/
  seconds : Float
  /-- The last octet of the agent's address. -/
  hostOctet : UInt8

/-- The first follower after 15 seconds. -/
def CompromiseSetting.usual : CompromiseSetting := ⟨15.0, 2⟩

/-- The settings of a run. -/
structure Settings where
  attractionGain : Float
  repulsionGain : Float
  /-- Seed of the placement and of the losses. -/
  seed : UInt64
  /-- Agents besides the leader. -/
  followerCount : UInt32
  /-- Radius of the sphere that followers are placed in, in metres. -/
  spawnRadius : Float
  /-- Length of the run. -/
  duration : Float
  /-- Time from one broadcast to the next. -/
  packetInterval : Float
  /-- Time from one step to the next. -/
  calculateInterval : Float
  /-- Where positions are to be written; nothing here does so. -/
  positionsPath : String
  /-- How much later than the leader followers start. -/
  followerStartDelay : Float
  /-- Time from one position sample to the next. -/
  sampleInterval : Float
  minDampen : Float
  maxDampen : Float
  /-- The leader's address; followers have those after it. -/
  baseAddress : Address
  /-- Time from sending a datagram to its arrival. -/
  linkLatency : Float
  /-- Probability of losing a datagram. -/
  packetLoss : Float
  compromise : Option CompromiseSetting

namespace Settings

/-- A run of three minutes with seven followers. -/
def usual : Settings where
  attractionGain := 1.0
  repulsionGain := 1.0
  seed := 0
  followerCount := 7
  spawnRadius := 4.0
  duration := 180.0
  packetInterval := 1.5
  calculateInterval := 0.01
  positionsPath := "positions.csv"
  followerStartDelay := 1.0
  sampleInterval := 0.05
  minDampen := Integrator.defaultMinDampen
  maxDampen := Integrator.defaultMaxDampen
  baseAddress := Address.ofOctets 10 1 1 1
  linkLatency := 0.001
  packetLoss := 0.0
  compromise := none

/-- The leader and the followers, as far as 32 bits can count them. -/
def agentCount (s : Settings) : Nat := min (s.followerCount.toNat + 1) (UInt32.size - 1)

/-! ## Validation -/

/-- Whether a number is not finite or not above zero. -/
def notPositive (x : Float) : Bool := !x.isFinite || x ≤ 0.0

/-- Whether a number is not finite or below zero. -/
def isNegative (x : Float) : Bool := !x.isFinite || x < 0.0

/-- Everything that can be wrong with settings, in the order in which it is looked at, and whether
it is. -/
def checks (s : Settings) : List (Bool × Failure) :=
  [(!s.attractionGain.isFinite || !s.repulsionGain.isFinite, .badSetting .gains),
    (notPositive s.spawnRadius, .badSetting .spawnRadiusSign),
    (s.spawnRadius > Placement.maxSpawnRadius, .badSetting .spawnRadiusSize),
    (swarmLimit < s.agentCount, .swarmSizeExceeded),
    (notPositive s.duration, .badSetting .runLength),
    (notPositive s.packetInterval, .badSetting .packetInterval),
    (notPositive s.calculateInterval, .badSetting .calculateInterval),
    (notPositive s.sampleInterval, .badSetting .sampleInterval),
    (isNegative s.followerStartDelay, .badSetting .startDelay),
    (isNegative s.linkLatency, .badSetting .latency),
    (!(s.minDampen ≥ 0.0 && s.minDampen < s.maxDampen && s.maxDampen.isFinite),
      .badSetting .dampening),
    (!(0.0 ≤ s.packetLoss && s.packetLoss ≤ 1.0), .badSetting .packetLoss),
    ((s.baseAddress.offset? s.followerCount.toNat).isNone, .badSetting .addressRange),
    (s.compromise.any fun c => isNegative c.seconds, .badSetting .compromiseTime)]

/-- The first thing that is wrong with settings. -/
def validate (s : Settings) : Except Failure Unit :=
  match s.checks.find? (·.1) with
  | some (_, failure) => .error failure
  | none => .ok ()

/-! ## Times -/

/-- The instant of a number of seconds. -/
def instant (seconds : Float) : Except Failure Instant :=
  match Duration.ofSeconds? seconds with
  | some t => .ok t
  | none => .error (.badSetting .timeRange)

/-- The duration of a number of seconds. -/
def span (seconds : Float) : Except Failure Duration :=
  match Duration.ofSeconds? seconds with
  | some d => .ok d
  | none => .error (.badSetting .durationRange)

/-- When the run ends. -/
def stopTime (s : Settings) : Except Failure Instant := instant s.duration

/-- When followers start. -/
def followerStart (s : Settings) : Except Failure Instant := instant s.followerStartDelay

/-- The time from one position sample to the next. -/
def samplePeriod (s : Settings) : Except Failure Duration := span s.sampleInterval

/-- When the compromise is due, if there is to be one. -/
def compromiseTime (s : Settings) : Except Failure (Option Instant) :=
  match s.compromise with
  | none => .ok none
  | some c => (instant c.seconds).map some

/-- The link between the agents. -/
def link (s : Settings) : Except Failure Link := do
  let latency ← span s.linkLatency
  return { latency, loss := s.packetLoss, seed := s.seed }

/-- The settings that all agents share. -/
def forAgents (s : Settings) : Except Failure AgentSettings := do
  let packetInterval ← span s.packetInterval
  let calculateInterval ← span s.calculateInterval
  return { baseAddress := s.baseAddress
           agentCount := s.agentCount
           packetInterval
           calculateInterval
           attractionGain := s.attractionGain
           repulsionGain := s.repulsionGain
           minDampen := s.minDampen
           maxDampen := s.maxDampen
           compromiseAt := none }

end Settings

end SwarmFlight
