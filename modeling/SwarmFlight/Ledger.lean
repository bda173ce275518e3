import SwarmFlight.Failure
import SwarmFlight.Notice
import SwarmFlight.Registry

/-!
# The ledger of compromises

A compromise turns a follower into a leader at a set time. The ledger lists the compromises
that are planned, numbered from 1 in order of planning, at most one for each agent, and
notes when each took place. Only followers are ever planned; the first time that a
compromise takes place is the one that counts.
-/

namespace SwarmFlight

/-- A planned compromise. -/
structure Compromise where
  /-- Its number in the ledger, from 1 on. -/
  number : Nat
  target : Address
  due : Instant
  /-- When it took place, if it has. -/
  fired : Option Instant
  deriving DecidableEq

/-- Compromises planned for one instant. -/
structure Ledger where
  due : Instant
  planned : Registry Compromise
  /-- The number of the compromise that is planned next. -/
  nextNumber : Nat

namespace Ledger

/-- Nothing is planned. -/
def empty (due : Instant) : Ledger := ⟨due, Registry.empty, 1⟩

/-- The compromises in order of planning. -/
def compromises (l : Ledger) : List Compromise := l.planned.values

/-- The number of compromises planned. -/
def plannedCount (l : Ledger) : Nat := l.planned.size

/-- The number of compromises that took place. -/
def firedCount (l : Ledger) : Nat := l.compromises.countP (·.fired.isSome)

/-- When the compromise of an agent is due, if one is planned. -/
def dueFor (l : Ledger) (id : Address) : Option Instant := (l.planned.get? id).map Compromise.due

/-- Whether the compromise of an agent took place. -/
def hasFired (l : Ledger) (id : Address) : Bool :=
  ((l.planned.get? id).bind Compromise.fired).isSome

/-! ## Planning -/

/-- What becomes of one candidate. -/
inductive Choice where
  /-- Not selected, or planned already. -/
  | passed
  /-- Selected, but a leader. -/
  | leader
  /-- Planned. -/
  | planned (ledger : Ledger)
  /-- There is no room in the ledger. -/
  | noRoom

/-- Consider one candidate. -/
def choose (l : Ledger) (selects : Address → Bool) (id : Address) (role : Role) : Choice :=
  if !selects id || l.planned.contains id then .passed
  else if role.isLeader then .leader
  else
    match l.planned.put? id ⟨l.nextNumber, id, l.due, none⟩ with
    | some planned => .planned { l with planned, nextNumber := l.nextNumber + 1 }
    | none => .noRoom

/-- A ledger after planning, how many compromises were added or why planning broke off, and what
there is to tell about it. -/
structure Plan where
  ledger : Ledger
  added : Except Failure Nat
  notices : List Notice

/-- Consider some candidates in turn, `added` compromises having been planned before. -/
def planFrom (selects : Address → Bool) : Ledger → Nat → List (Address × Role) → Plan
  | l, added, [] => ⟨l, .ok added, []⟩
  | l, added, (id, role) :: rest =>
    match l.choose selects id role with
    | .passed => planFrom selects l added rest
    | .leader =>
      let p := planFrom selects l added rest
      { p with notices := .leaderSelected id :: p.notices }
    | .planned l =>
      let p := planFrom selects l (added + 1) rest
      { p with notices := .planned id l.due :: p.notices }
    | .noRoom => ⟨l, .error .swarmSizeExceeded, []⟩

/-- Plan a compromise for each selected follower among some candidates. Planning breaks off when
the ledger is full, and what was planned until then stays. -/
def plan (l : Ledger) (selects : Address → Bool) (candidates : List (Address × Role)) : Plan :=
  planFrom selects l 0 candidates

/-! ## Taking place -/

/-- Note that the compromise of an agent took place; tells whether it was the first time. -/
def fire (l : Ledger) (id : Address) (now : Instant) : Except Failure (Bool × Ledger) :=
  match l.planned.get? id with
  | none => .error (.unknownAgent id)
  | some c =>
    if c.fired.isSome then .ok (false, l)
    else
      match l.planned.put? id { c with fired := some now } with
      | some planned => .ok (true, { l with planned })
      | none => .error (.unknownAgent id)

end Ledger

end SwarmFlight
