import SwarmFlight.Address
import SwarmFlight.Duration

/-!
# Failures

A `Failure` is a cause : what an operation refused to do and to whom. Its wording is in
`Failure.message` alone. A `Complaint` says what is wrong with a setting. A `Halt` is the
end of an operation that gives no result : a failure, or one of the events after which no
call can go on, such as a sum of times that leaves the range.
-/

namespace SwarmFlight

/-- What is wrong with a setting of a run or of one of its parts. -/
inductive Complaint where
  | timeRange
  | durationRange
  | gains
  | spawnRadiusSign
  | spawnRadiusSize
  | runLength
  | packetInterval
  | calculateInterval
  | sampleInterval
  | startDelay
  | latency
  | dampening
  | packetLoss
  | addressRange
  | compromiseTime
  | positionCount
  deriving DecidableEq, Repr

/-- The wording of a complaint. -/
def Complaint.message : Complaint → String
  | .timeRange => "time must be finite and non-negative"
  | .durationRange => "duration must be finite and non-negative"
  | .gains => "gains must be finite"
  | .spawnRadiusSign => "spawn radius must be positive"
  | .spawnRadiusSize => "spawn radius too large"
  | .runLength => "duration must be positive"
  | .packetInterval => "packet interval must be positive"
  | .calculateInterval => "calculate interval must be positive"
  | .sampleInterval => "sample interval must be positive"
  | .startDelay => "start delay must be non-negative"
  | .latency => "link latency must be non-negative"
  | .dampening => "dampening thresholds must satisfy 0 <= min < max"
  | .packetLoss => "packet loss must be within [0, 1]"
  | .addressRange => "address range overflows"
  | .compromiseTime => "compromise time must be non-negative"
  | .positionCount => "one start position per agent required"

/-- Why an operation was refused. -/
inductive Failure where
  /-- The network does not let anyone take this address. -/
  | bindFailed (address : Address)
  /-- Another endpoint holds the address. -/
  | addressInUse (address : Address)
  /-- The agent is not in the state of life that the operation needs. -/
  | invalidState
  /-- The bytes are not a beacon. -/
  | invalidPayload
  /-- A payload of `size` bytes is longer than a datagram may be. -/
  | payloadTooLarge (size : Nat)
  /-- A registry has no room for another agent. -/
  | swarmSizeExceeded
  /-- A waypoint at this instant lies before the last one of its track. -/
  | waypointOutOfOrder (instant : Instant)
  /-- A setting cannot be used. -/
  | badSetting (complaint : Complaint)
  /-- No agent has the address. -/
  | unknownAgent (address : Address)
  deriving DecidableEq

/-- The wording of a failure. -/
def Failure.message : Failure → String
  | .bindFailed a => s!"failed to bind endpoint for {a.text}"
  | .addressInUse a => s!"address {a.text} is already bound"
  | .invalidState => "operation not valid in the current state"
  | .invalidPayload => "payload is not a valid agent state"
  | .payloadTooLarge n => s!"payload of {n} bytes exceeds the datagram limit"
  | .swarmSizeExceeded => "swarm size exceeded"
  | .waypointOutOfOrder t => s!"waypoint at {t.unitText} precedes the last queued waypoint"
  | .badSetting c => "configuration error: " ++ c.message
  | .unknownAgent a => s!"unknown agent {a.text}"

/-- Why an operation ended without a result. -/
inductive Halt where
  /-- The operation was refused. -/
  | failure (cause : Failure)
  /-- A sum of times left the range of durations. -/
  | clockOverflow
  /-- A number was to be drawn from a range that is empty or not finite. -/
  | emptyRange
  /-- A tick was scheduled while the one before it was still pending. -/
  | tickPending
  /-- The work did not end within its bound. -/
  | unfinished
  deriving DecidableEq

end SwarmFlight
