import SwarmFlight.Agent.Scene

/-!
# What an agent does

* `start` sets up the endpoint and schedules the first duties; `stop` undoes both.
* `broadcast` sends the own position and role to every other address of the swarm.
* `receive` takes down the beacon of a datagram that was delivered.
* `compute` moves on by one step under the forces of the peers known so far.
* `turn` makes a follower a leader, once.
* `handle` does whichever duty is due.

An agent puts what it is to do later on the queue as an event; `wrap` makes an event of the
queue's kind of a duty.
-/

namespace SwarmFlight

/-- Agents put their duties on the queue as they are, unless the run wraps them. -/
instance : Ranked Duty := ⟨Duty.rank⟩

namespace Act

variable {ε : Type}

/-! ## Start and stop -/

/-- Set up the endpoint and schedule the first duties. -/
def start [Ranked ε] (wrap : Duty → ε) : Act ε Unit := do
  let a ← agent
  if a.stage ≠ .uninitialized then fail .invalidState
  let world ← ofExcept ((← get).world.bind a.id)
  setWorld fun _ => world
  setAgent ({ · with stage := .running })
  let now ← clock
  if a.role.isLeader then reportColor leaderColor
  scheduleDuty wrap .zero .broadcast
  scheduleDuty wrap .zero .compute
  match a.settings.compromiseAt with
  | some due =>
    if !a.role.isLeader then scheduleDuty wrap (now.timeTo due) .compromise
  | none => pure ()
  note (.started a.id a.role now)

/-- What an agent has to tell when it stops. -/
def farewell (a : Agent) : List Notice :=
  a.sent.toList.map (fun (peer, count) => .sentTo a.id count peer) ++
    a.received.toList.map (fun (peer, count) => .receivedFrom a.id count peer) ++
    [.stopped a.id a.role a.sent.total a.received.total a.table.size]

/-- Call the duties off and give up the endpoint. -/
def stop : Act ε Unit := do
  let a ← agent
  if a.stage ≠ .running then fail .invalidState
  setWorld fun w => a.slots.toList.foldl World.cancel w
  setWorld (·.close a.id)
  setAgent ({ · with slots := {}, stage := .stopped })
  setWorld (·.noteAll (farewell a))

/-! ## Duties -/

/-- Send a payload to a peer and count it. -/
def sendTo (payload : List UInt8) (peer : Address) : Act ε Unit := do
  let a ← agent
  let d ← ofExcept (Datagram.make a.id peer payload)
  setWorld (·.send d)
  let sent ← ofExcept ((← agent).sent.increment peer)
  setAgent ({ · with sent })

/-- Send a payload to each of `n` addresses of the swarm, from its `first` one on, except to the
agent itself. -/
def sendFrom (payload : List UInt8) (first : Nat) : Nat → Act ε Unit
  | 0 => pure ()
  | n + 1 => do
    let a ← agent
    match a.settings.baseAddress.offset? first with
    | some peer => if peer ≠ a.id then sendTo payload peer
    | none => pure ()
    sendFrom payload (first + 1) n

/-- Make the own position and role known to every other address of the swarm. -/
def broadcast [Ranked ε] (wrap : Duty → ε) : Act ε Unit := do
  clearSlot .broadcast
  let now ← clock
  let a ← agent
  let payload := (a.beacon (← track) now).encode
  sendFrom payload 0 a.settings.peerCount
  note (.broadcast a.id now)
  scheduleDuty wrap a.settings.packetInterval .broadcast

/-- What there is to tell about peers that exert no force. -/
def skipNotice (s : Forces.Skipped) : Notice :=
  match s.role with
  | .leader => .leaderSkipped s.peer s.distance
  | .follower => .followerSkipped s.peer s.distance

/-- Move on by one step under the forces of the peers known so far. -/
def compute [Ranked ε] (wrap : Duty → ε) : Act ε Unit := do
  clearSlot .compute
  let now ← clock
  let a ← agent
  let position := (← track).positionAt now
  let peers := a.table.snapshot
  setWorld (·.noteAll ((Forces.skipped a.role position peers).map skipNotice))
  let forces := Forces.acting a.role position peers
  match a.settings.integrator.advance a.velocity forces position now with
  | none => throw .clockOverflow
  | some step =>
    setAgent ({ · with velocity := step.velocity })
    let track ← ofExcept ((← track).add step.waypoint)
    modify ({ · with track })
    note (.steered a.id now step.acceleration)
    scheduleDuty wrap a.settings.calculateInterval .compute

/-- Turn a follower into a leader; tells whether anything changed. -/
def turn : Act ε Bool := do
  clearSlot .compromise
  let a ← agent
  if a.compromised || a.role.isLeader then return false
  else
    let now ← clock
    setAgent ({ · with role := .leader, compromised := true })
    reportColor compromisedColor
    note (.compromised a.id now)
    return true

/-- Do one of the duties, if the agent is running. -/
def handle [Ranked ε] (wrap : Duty → ε) (duty : Duty) : Act ε Unit := do
  let a ← agent
  if a.stage ≠ .running then note (.ignored a.id duty a.stage)
  else
    match duty with
    | .broadcast => broadcast wrap
    | .compute => compute wrap
    | .compromise => discard turn

/-! ## Datagrams -/

/-- Take down the beacon of a datagram that was delivered; tells whether it was accepted. The
agent's own datagrams and everything that is no beacon are dropped. -/
def receive (sender : Address) (payload : List UInt8) : Act ε Bool := do
  let a ← agent
  if a.stage ≠ .running then
    note (.notRunning a.id sender)
    return false
  else if sender = a.id then
    note (.ownDatagram a.id)
    return false
  else
    match Beacon.decode payload with
    | .error _ =>
      note (.malformed a.id payload.length sender)
      return false
    | .ok beacon =>
      let received ← ofExcept (a.received.increment sender)
      setAgent ({ · with received })
      let table ← ofExcept (a.table.update sender beacon)
      setAgent ({ · with table })
      return true

end Act

end SwarmFlight
