import SwarmFlight.Beacon
import SwarmFlight.Registry

/-!
# What an agent knows of its peers

`PeerTable` holds the last beacon heard from each peer; the owner is never in its own
table. `Tally` counts datagrams by peer. Neither forgets anyone.
-/

namespace SwarmFlight

/-! ## The last beacon of each peer -/

/-- The last beacon heard from each peer of `owner`. -/
structure PeerTable where
  owner : Address
  beacons : Registry Beacon

namespace PeerTable

/-- Nobody has been heard. -/
def empty (owner : Address) : PeerTable := ⟨owner, Registry.empty⟩

/-- Take down the beacon of a peer. One of the owner itself changes nothing. -/
def update (t : PeerTable) (peer : Address) (beacon : Beacon) : Except Failure PeerTable :=
  if peer = t.owner then .ok t
  else
    match t.beacons.put? peer beacon with
    | some beacons => .ok { t with beacons }
    | none => .error .swarmSizeExceeded

/-- The last beacon of a peer. -/
def get? (t : PeerTable) (peer : Address) : Option Beacon := t.beacons.get? peer

/-- Whether a peer has been heard. -/
def contains (t : PeerTable) (peer : Address) : Bool := t.beacons.contains peer

/-- Every peer heard with its last beacon, in the order in which they were first heard. -/
def snapshot (t : PeerTable) : List (Address × Beacon) := t.beacons.entries

/-- The number of peers heard. -/
def size (t : PeerTable) : Nat := t.beacons.size

end PeerTable

/-! ## Counts by peer -/

/-- A count for each peer. -/
structure Tally where
  counts : Registry Nat

namespace Tally

/-- Nothing has been counted. -/
def empty : Tally := ⟨Registry.empty⟩

/-- The count of a peer, zero for one never counted. -/
def get (t : Tally) (peer : Address) : Nat := (t.counts.get? peer).getD 0

/-- Count one more for a peer. -/
def increment (t : Tally) (peer : Address) : Except Failure Tally :=
  match t.counts.put? peer (t.get peer + 1) with
  | some counts => .ok ⟨counts⟩
  | none => .error .swarmSizeExceeded

/-- Every peer counted with its count, in the order in which they were first counted. -/
def toList (t : Tally) : List (Address × Nat) := t.counts.entries

/-- The sum of all counts. -/
def total (t : Tally) : Nat := t.counts.values.foldl (· + ·) 0

end Tally

end SwarmFlight
