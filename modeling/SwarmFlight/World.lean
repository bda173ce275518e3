import SwarmFlight.EventQueue
import SwarmFlight.Network
import SwarmFlight.Telemetry

/-!
# What the agents of a run share

The world of a run is its event queue, its network, its telemetry sink and its journal. The
operations on it are those of its parts, each noted in the journal as far as there is
something to tell.
-/

namespace SwarmFlight

/-- The shared part of a run whose events are of type `ε`. -/
structure World (ε : Type) where
  queue : EventQueue ε
  network : Network
  telemetry : Telemetry
  journal : Journal

namespace World

variable {ε : Type}

/-- A world at the start of time. -/
def ofLink (link : Link) (telemetry : Telemetry) (journal : Journal) : World ε :=
  ⟨EventQueue.empty, Network.ofLink link, telemetry, journal⟩

/-- The current time. -/
def clock (w : World ε) : Instant := w.queue.clock

/-- Tell something. -/
def note (w : World ε) (n : Notice) : World ε := { w with journal := w.journal.add n }

/-- Tell some things in order. -/
def noteAll (w : World ε) (ns : List Notice) : World ε :=
  { w with journal := w.journal.addAll ns }

/-! ## The network -/

/-- Set up an endpoint at an address. -/
def bind (w : World ε) (a : Address) : Except Failure (World ε) :=
  match w.network.bind a with
  | .ok network => .ok ({ w with network }.note (.bound a))
  | .error f => .error f

/-- Let nobody set up an endpoint at an address from now on. -/
def refuse (w : World ε) (a : Address) : Except Failure (World ε) :=
  match w.network.refuse a with
  | .ok network => .ok { w with network }
  | .error f => .error f

/-- Give up the endpoint at an address, if there is one. -/
def close (w : World ε) (a : Address) : World ε :=
  if w.network.isBound a then
    { w with network := w.network.close a }.note (.closed a)
  else w

/-- Send a datagram. -/
def send (w : World ε) (d : Datagram) : World ε := { w with network := w.network.send d }

/-- Take the datagrams out of the network that the link does not lose. -/
def collect (w : World ε) : List Datagram × World ε :=
  let (s, network) := w.network.collect
  let lost := s.lost.map fun d => Notice.lost d.sender d.receiver
  (s.surviving, { w with network, journal := w.journal.addAll lost })

/-- Hand a datagram to the endpoint at its receiver's address, if there is one. -/
def deliver (w : World ε) (d : Datagram) : Option Datagram × World ε :=
  match w.network.deliver d with
  | (some d, network) => (some d, { w with network })
  | (none, network) => (none, { w with network }.note (.unreachable d.sender d.receiver))

/-! ## Telemetry -/

/-- Report a colour. -/
def reportColor (w : World ε) (r : ColorRecord) : World ε :=
  let (telemetry, notices) := w.telemetry.reportColor r
  { w with telemetry, journal := w.journal.addAll notices }

/-- Report a position. -/
def reportPosition (w : World ε) (r : PositionRecord) : World ε :=
  let (telemetry, notices) := w.telemetry.reportPosition r
  { w with telemetry, journal := w.journal.addAll notices }

/-! ## The queue -/

/-- Schedule an event for an instant, or for now if it has passed. -/
def scheduleAt [Ranked ε] (w : World ε) (time : Instant) (event : ε) : EventId × World ε :=
  let (id, queue) := w.queue.scheduleAt time event
  (id, { w with queue })

/-- Call an event off. -/
def cancel (w : World ε) (id : EventId) : World ε :=
  { w with queue := (w.queue.cancel id).2 }

end World

end SwarmFlight
