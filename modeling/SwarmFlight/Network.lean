import SwarmFlight.Failure
import SwarmFlight.Random
import SwarmFlight.Registry

/-!
# The network

Endpoints take an address each (`bind`) and exchange datagrams. A datagram that is sent is
queued; `collect` hands over what has been queued, less what the link loses at random.
`deliver` decides at the moment of arrival whether the receiver still has an endpoint.
Every datagram is accounted for in `Stats`.
-/

namespace SwarmFlight

/-- The longest payload of a datagram, in bytes. -/
def maxDatagramSize : Nat := 1024

/-- Bytes on their way from one address to another. -/
structure Datagram where
  sender : Address
  receiver : Address
  payload : List UInt8
  deriving DecidableEq

/-- A datagram, unless its payload is too long. -/
def Datagram.make (sender receiver : Address) (payload : List UInt8) : Except Failure Datagram :=
  if payload.length ≤ maxDatagramSize then .ok ⟨sender, receiver, payload⟩
  else .error (.payloadTooLarge payload.length)

/-- How the link treats datagrams. -/
structure Link where
  /-- The time from sending to arrival. -/
  latency : Duration
  /-- The probability that a datagram is lost. -/
  loss : Float
  /-- The seed of the losses. -/
  seed : UInt64

/-- A link of one millisecond that loses nothing. -/
def Link.usual : Link where
  latency := { nanos := 1000000 }
  loss := 0.0
  seed := 0

/-- What has become of the datagrams. -/
structure Stats where
  /-- Handed to the network. -/
  sent : Nat := 0
  /-- Handed to a receiver. -/
  delivered : Nat := 0
  /-- Lost on the link. -/
  lost : Nat := 0
  /-- Arrived where nobody was. -/
  unreachable : Nat := 0
  deriving DecidableEq

/-- The medium that all agents of a run share. -/
structure Network where
  link : Link
  generator : Generator
  /-- Addresses that have an endpoint. -/
  bound : Registry Unit
  /-- Addresses at which no endpoint can be set up. -/
  refused : Registry Unit
  /-- Datagrams sent and not yet collected, in order. -/
  outbox : Array Datagram
  stats : Stats

namespace Network

/-- A network without endpoints. -/
def ofLink (link : Link) : Network where
  link
  generator := Generator.ofSeed link.seed
  bound := Registry.empty
  refused := Registry.empty
  outbox := #[]
  stats := {}

/-- Let nobody set up an endpoint at an address from now on. -/
def refuse (n : Network) (a : Address) : Except Failure Network :=
  match n.refused.put? a () with
  | some refused => .ok { n with refused }
  | none => .error .swarmSizeExceeded

/-- Whether there is an endpoint at an address. -/
def isBound (n : Network) (a : Address) : Bool := n.bound.contains a

/-- Set up an endpoint at an address. -/
def bind (n : Network) (a : Address) : Except Failure Network :=
  if n.refused.contains a then .error (.bindFailed a)
  else if n.isBound a then .error (.addressInUse a)
  else
    match n.bound.put? a () with
    | some bound => .ok { n with bound }
    | none => .error .swarmSizeExceeded

/-- Give up the endpoint at an address, if there is one. -/
def close (n : Network) (a : Address) : Network := { n with bound := n.bound.erase a }

/-- Queue a datagram. -/
def send (n : Network) (d : Datagram) : Network :=
  { n with outbox := n.outbox.push d, stats := { n.stats with sent := n.stats.sent + 1 } }

/-- Datagrams sorted by whether the link loses them. -/
structure Sorted where
  /-- The datagrams that get through, in order. -/
  surviving : List Datagram
  /-- The datagrams that are lost, in order. -/
  lost : List Datagram
  generator : Generator

/-- Decide for one datagram after the other whether it is lost. -/
def sortOut (loss : Float) : Generator → List Datagram → Sorted
  | g, [] => ⟨[], [], g⟩
  | g, d :: rest =>
    let (isLost, g) := g.chance loss
    let s := sortOut loss g rest
    if isLost then { s with lost := d :: s.lost } else { s with surviving := d :: s.surviving }

/-- Take the datagrams out of the outbox : those that get through and those that are lost. -/
def collect (n : Network) : Sorted × Network :=
  let s := sortOut n.link.loss n.generator n.outbox.toList
  (s, { n with
    generator := s.generator
    outbox := #[]
    stats := { n.stats with lost := n.stats.lost + s.lost.length } })

/-- Hand a datagram to the endpoint at its receiver's address, if there is one. -/
def deliver (n : Network) (d : Datagram) : Option Datagram × Network :=
  if n.isBound d.receiver then
    (some d, { n with stats := { n.stats with delivered := n.stats.delivered + 1 } })
  else
    (none, { n with stats := { n.stats with unreachable := n.stats.unreachable + 1 } })

end Network

end SwarmFlight
