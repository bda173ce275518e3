import SwarmFlight.Proofs.Run.Strays
import SwarmFlight.Proofs.Wire

/-!
# What an agent hears

An agent enters what it hears in a tally and in a table, one after the other, and gives up
between the two if the first has no room. The two are never at odds, because the same peers
are entered in both, in the same order (`Agent.Consistent`) : so they have room for the same
peers. `Receives` says in three cases what comes of a datagram then (`Consistent.receives`).

`Hears` follows an agent from its creation on, through calls in any order and whatever happens
to the world meanwhile, with a log of the datagrams that it was told of. Only those leave a
trace in the tally and the table (`Act.Unheeding`), and both follow from the log
(`Hears.remembers`). `Hears.receives_exactly` puts it together.
-/

namespace SwarmFlight

theorem Registry.size_eq {α : Type} (r : Registry α) : r.size = r.keys.length :=
  (List.length_map _).symm

/-- There is room for whoever is entered already, and for others until the registry is full. -/
theorem Registry.exists_put?_iff {α : Type} {r : Registry α} {a : Address} (v : α) :
    (∃ r', r.put? a v = some r') ↔ r.contains a ∨ r.size < swarmLimit := by
  have hb : r.size ≤ swarmLimit := r.bounded
  rw [← Option.ne_none_iff_exists', ne_eq, put?_eq_none_iff, contains, decide_eq_true_eq]
  rw [not_and_or, not_not, Nat.lt_iff_le_and_ne, and_iff_right hb]

/-! ## The tally and the table -/

/-- The tally and the table of an agent have the same peers, in the same order, and not the agent. -/
structure Agent.Consistent (a : Agent) : Prop where
  owner : a.table.owner = a.id
  keys : a.received.counts.keys = a.table.beacons.keys
  other : a.id ∉ a.table.beacons.keys

/-- Whether an agent can take down a peer : it knows it, or there is room for another one. -/
def Agent.Admits (a : Agent) (peer : Address) : Prop :=
  a.table.contains peer ∨ a.table.size < swarmLimit

/-- What comes of a datagram : it is dropped, there is no room for its sender, or it is accepted. -/
inductive Receives {ε : Type} (s : Scene ε) (sender : Address) (payload : List UInt8) :
    Except Failure Bool → Scene ε → Prop
  | drops (w : World ε)
    (reason : s.agent.stage ≠ .running ∨ sender = s.agent.id ∨
      ∃ f, Beacon.decode payload = .error f) :
    Receives s sender payload (.ok false) { s with world := w }
  | overflows {beacon : Beacon} (other : sender ≠ s.agent.id)
    (decodes : Beacon.decode payload = .ok beacon) (full : ¬ s.agent.Admits sender) :
    Receives s sender payload (.error .swarmSizeExceeded) s
  | accepts {beacon : Beacon} {received : Tally} {table : PeerTable}
    (running : s.agent.stage = .running) (other : sender ≠ s.agent.id)
    (decodes : Beacon.decode payload = .ok beacon) (admits : s.agent.Admits sender)
    (counts : s.agent.received.increment sender = .ok received)
    (learns : s.agent.table.update sender beacon = .ok table) :
    Receives s sender payload (.ok true) (Act.heard s received table)

namespace Agent.Consistent

variable {ε : Type} {s : Scene ε} {a : Agent} {sender : Address} {payload : List UInt8}
  {beacon : Beacon} {received : Tally} {table : PeerTable}

theorem create (id : Address) (role : Role) (settings : AgentSettings) :
    (Agent.create id role settings).Consistent := ⟨rfl, rfl, List.not_mem_nil⟩

/-- The tally has room for a peer just if the table has. -/
theorem admits_iff (h : a.Consistent) : a.Admits sender ↔
    a.received.counts.contains sender ∨ a.received.counts.size < swarmLimit := by
  rw [Admits, PeerTable.contains, PeerTable.size, Registry.contains, Registry.contains,
    Registry.size_eq, Registry.size_eq, h.keys]

theorem exists_increment (h : a.Consistent) (hroom : a.Admits sender) :
    ∃ received, a.received.increment sender = .ok received := by
  obtain ⟨counts, hput⟩ :=
    (Registry.exists_put?_iff (a.received.get sender + 1)).2 (h.admits_iff.1 hroom)
  exact ⟨⟨counts⟩, by simp only [Tally.increment, hput]⟩

theorem increment_of_full (h : a.Consistent) (hfull : ¬ a.Admits sender) :
    a.received.increment sender = .error .swarmSizeExceeded := by
  unfold Tally.increment
  cases hput : a.received.counts.put? sender (a.received.get sender + 1) with
  | none => rfl
  | some counts => exact absurd (h.admits_iff.2 ((Registry.exists_put?_iff _).1 ⟨_, hput⟩)) hfull

theorem exists_update (h : a.Consistent) (hother : sender ≠ a.id) (hroom : a.Admits sender)
    (beacon : Beacon) : ∃ table, a.table.update sender beacon = .ok table := by
  obtain ⟨beacons, hput⟩ := (Registry.exists_put?_iff beacon).2 hroom
  refine ⟨{ a.table with beacons }, ?_⟩
  rw [PeerTable.update, if_neg (h.owner ▸ hother), hput]

/-- A datagram that is accepted enters its sender in both or in neither. -/
theorem hears (h : a.Consistent) (hother : sender ≠ a.id)
    (counts : a.received.increment sender = .ok received)
    (learns : a.table.update sender beacon = .ok table) :
    Consistent { a with received, table } := by
  obtain ⟨howner, hput⟩ := PeerTable.update_eq_ok (h.owner ▸ hother) learns
  have hkeys := Registry.keys_put? (Tally.increment_eq_ok counts)
  refine ⟨howner.trans h.owner, ?_, fun hmem => ?_⟩
  · rw [hkeys, h.keys]
    exact (Registry.keys_put? hput).symm
  · rcases (Registry.mem_keys_put? hput).1 hmem with heq | hmem
    · exact hother heq.symm
    · exact h.other hmem

end Agent.Consistent

theorem Act.receive_drops {ε : Type} {s : Scene ε} {sender : Address} {payload : List UInt8}
    (reason : s.agent.stage ≠ .running ∨ sender = s.agent.id ∨
      ∃ f, Beacon.decode payload = .error f) :
    ∃ w, receive sender payload s = .ok false { s with world := w } := by
  simp only [receive, bind_apply, agent_apply]
  by_cases hrun : s.agent.stage = .running
  · simp only [hrun, ne_eq, not_true_eq_false, if_false]
    by_cases hown : sender = s.agent.id
    · simp only [if_pos hown, bind_apply, note_apply, pure_apply]
      exact ⟨_, rfl⟩
    · obtain ⟨f, hdecode⟩ := (reason.resolve_left (not_not.2 hrun)).resolve_left hown
      simp only [if_neg hown, hdecode, bind_apply, note_apply, pure_apply]
      exact ⟨_, rfl⟩
  · simp only [if_pos hrun, bind_apply, note_apply, pure_apply]
    exact ⟨_, rfl⟩

theorem Act.receive_overflows {ε : Type} {s : Scene ε} {sender : Address} {payload : List UInt8}
    {beacon : Beacon} (hrun : s.agent.stage = .running) (hother : sender ≠ s.agent.id)
    (hdecode : Beacon.decode payload = .ok beacon)
    (hfull : s.agent.received.increment sender = .error .swarmSizeExceeded) :
    receive sender payload s = .error (.failure .swarmSizeExceeded) s := by
  simp only [receive, bind_apply, agent_apply, hrun, ne_eq, not_true_eq_false, if_false,
    if_neg hother, hdecode, hfull, ofExcept_error]

/-- What comes of a datagram as long as the tally and the table have the same peers. -/
theorem Agent.Consistent.receives {ε : Type} {s : Scene ε} (h : s.agent.Consistent)
    (sender : Address) (payload : List UInt8) :
    ∃ r s', Act.receive sender payload s = returned r s' ∧ Receives s sender payload r s' := by
  by_cases reason : s.agent.stage ≠ .running ∨ sender = s.agent.id ∨
      ∃ f, Beacon.decode payload = .error f
  · obtain ⟨w, heq⟩ := Act.receive_drops reason
    exact ⟨.ok false, _, heq, .drops w reason⟩
  · obtain ⟨hrun, hother, hdecode⟩ : s.agent.stage = .running ∧ sender ≠ s.agent.id ∧
        ¬ ∃ f, Beacon.decode payload = .error f := by
      simpa only [not_or, not_not] using reason
    cases decodes : Beacon.decode payload with
    | error f => exact absurd ⟨f, decodes⟩ hdecode
    | ok beacon =>
      by_cases hroom : s.agent.Admits sender
      · obtain ⟨received, counts⟩ := h.exists_increment hroom
        obtain ⟨table, learns⟩ := h.exists_update hother hroom beacon
        exact ⟨.ok true, _, Act.receive_eq hrun hother decodes counts learns,
          .accepts hrun hother decodes hroom counts learns⟩
      · exact ⟨.error .swarmSizeExceeded, s,
          Act.receive_overflows hrun hother decodes (h.increment_of_full hroom),
          .overflows hother decodes hroom⟩

/-! ## Acts that take nothing down -/

/-- What an agent knows of its peers, and who it is. -/
structure Memory where
  id : Address
  table : PeerTable
  received : Tally

/-- The memory of an agent. -/
def Agent.memory (a : Agent) : Memory := ⟨a.id, a.table, a.received⟩

namespace Act

variable {ε α β : Type}

/-- Acts that leave the memory of the agent as it is. -/
def Unheeding (x : Act ε α) : Prop := ∀ s : Scene ε,
  Returns False (fun _ s' => s'.agent.memory = s.agent.memory) (x s)

namespace Unheeding

theorem bind {x : Act ε α} {f : α → Act ε β} (hx : Unheeding x) (hf : ∀ a, Unheeding (f a)) :
    Unheeding (x >>= f) := fun s =>
  (hx s).bind (fun a s' h => (hf a s').mono fun _ _ h' => h'.trans h) fun _ _ h => h

theorem pure (a : α) : Unheeding (Pure.pure a : Act ε α) := fun _ => rfl

theorem agent : Unheeding (Act.agent : Act ε Agent) := fun _ => rfl

theorem track : Unheeding (Act.track : Act ε Track) := fun _ => rfl

theorem clock : Unheeding (Act.clock : Act ε Instant) := fun _ => rfl

theorem get : Unheeding (MonadState.get : Act ε (Scene ε)) := fun _ => rfl

theorem setTrack (t : Track) : Unheeding (modify fun s => { s with track := t } : Act ε Unit) :=
  fun _ => rfl

theorem setWorld (f : World ε → World ε) : Unheeding (Act.setWorld f) := fun _ => rfl

theorem setAgent {f : Agent → Agent} (hf : ∀ a, (f a).memory = a.memory) :
    Unheeding (Act.setAgent f : Act ε Unit) := fun s => hf s.agent

theorem throw (h : Halt) : Unheeding (throw h : Act ε α) := fun _ => by
  cases h with
  | failure f => exact rfl
  | _ => exact id

theorem ofExcept (r : Except Failure α) : Unheeding (Act.ofExcept r : Act ε α) := by
  cases r with
  | ok a => exact pure a
  | error f => exact throw (.failure f)

theorem note (n : Notice) : Unheeding (Act.note n : Act ε Unit) := setWorld _

theorem reportColor (color : Vec3) : Unheeding (Act.reportColor color : Act ε Unit) :=
  clock.bind fun _ => agent.bind fun _ => setWorld _

theorem clearSlot (duty : Duty) : Unheeding (Act.clearSlot duty : Act ε Unit) :=
  setAgent fun _ => rfl

theorem stop : Unheeding (Act.stop : Act ε Unit) := by
  refine agent.bind fun a => ?_
  split
  · exact (throw _).bind fun _ => (setWorld _).bind fun _ => (setWorld _).bind fun _ =>
      bind (setAgent fun _ => rfl) fun _ => setWorld _
  · exact (setWorld _).bind fun _ => (setWorld _).bind fun _ =>
      bind (setAgent fun _ => rfl) fun _ => setWorld _

theorem sendTo (payload : List UInt8) (peer : Address) :
    Unheeding (Act.sendTo payload peer : Act ε Unit) :=
  agent.bind fun _ => (ofExcept _).bind fun _ => (setWorld _).bind fun _ => agent.bind fun _ =>
    (ofExcept _).bind fun _ => setAgent fun _ => rfl

theorem sendFrom (payload : List UInt8) (first n : Nat) :
    Unheeding (Act.sendFrom payload first n : Act ε Unit) := by
  induction n generalizing first with
  | zero => exact pure _
  | succ n ih =>
    refine agent.bind fun a => ?_
    dsimp only
    split
    · split
      · exact (sendTo _ _).bind fun _ => ih _
      · exact ih _
    · exact ih _

theorem turn : Unheeding (Act.turn : Act ε Bool) := by
  refine (clearSlot _).bind fun _ => agent.bind fun a => ?_
  split
  · exact pure _
  · exact clock.bind fun _ => bind (setAgent fun _ => rfl) fun _ => (reportColor _).bind fun _ =>
      (note _).bind fun _ => pure _

variable [Ranked ε] {wrap : Duty → ε}

theorem schedule (delay : Duration) (event : ε) : Unheeding (Act.schedule delay event) :=
  fun s => by
    unfold Act.schedule
    cases s.world.clock.add? delay with
    | none => exact id
    | some time => exact rfl

theorem scheduleDuty (delay : Duration) (duty : Duty) :
    Unheeding (Act.scheduleDuty wrap delay duty) := by
  refine agent.bind fun a => ?_
  dsimp only
  split
  · exact (throw _).bind fun _ => (schedule _ _).bind fun _ => setAgent fun _ => rfl
  · exact (schedule _ _).bind fun _ => setAgent fun _ => rfl

theorem broadcast : Unheeding (Act.broadcast wrap) :=
  (clearSlot _).bind fun _ => clock.bind fun _ => agent.bind fun _ => track.bind fun _ =>
    (sendFrom _ _ _).bind fun _ => (note _).bind fun _ => scheduleDuty _ _

theorem compute : Unheeding (Act.compute wrap) := by
  refine (clearSlot _).bind fun _ => clock.bind fun _ => agent.bind fun _ => track.bind fun _ =>
    (setWorld _).bind fun _ => ?_
  dsimp only
  split
  · exact throw _
  · exact bind (setAgent fun _ => rfl) fun _ => track.bind fun _ => (ofExcept _).bind fun t =>
      (setTrack t).bind fun _ => (note _).bind fun _ => scheduleDuty _ _

theorem start : Unheeding (Act.start wrap) := by
  have hfirst : ∀ (a : Agent) (now : Instant), Unheeding (scheduleFirst wrap a now) := by
    intro a now
    refine (scheduleDuty _ _).bind fun _ => (scheduleDuty _ _).bind fun _ => ?_
    dsimp only
    split
    · split
      · exact (scheduleDuty _ _).bind fun _ => note _
      · exact note _
    · exact note _
  have hbound : ∀ a : Agent, Unheeding (do
      Act.setAgent ({ · with stage := .running })
      let now ← Act.clock
      if a.role.isLeader then Act.reportColor leaderColor
      scheduleFirst wrap a now) := by
    intro a
    refine bind (setAgent fun _ => rfl) fun _ => clock.bind fun now => ?_
    dsimp only
    split
    · exact (reportColor _).bind fun _ => hfirst _ _
    · exact hfirst _ _
  refine agent.bind fun a => ?_
  dsimp only
  split
  · exact (throw _).bind fun _ => get.bind fun s => (ofExcept _).bind fun _ =>
      (setWorld _).bind fun _ => hbound a
  · exact get.bind fun s => (ofExcept _).bind fun _ => (setWorld _).bind fun _ => hbound a

/-- No duty changes what an agent knows of its peers. -/
theorem handle (duty : Duty) : Unheeding (Act.handle wrap duty) := by
  refine agent.bind fun a => ?_
  split
  · exact note _
  · cases duty with
    | broadcast => exact broadcast
    | compute => exact compute
    | compromise => exact fun s => (turn s).of_discard fun _ _ h => h

end Unheeding

end Act

/-! ## Histories of an agent -/

/-- A datagram that an agent was told of, and what it answered. -/
structure Receipt where
  sender : Address
  payload : List UInt8
  result : Except Failure Bool

/-- Whether a datagram was accepted. -/
def Receipt.accepted (r : Receipt) : Bool :=
  match r.result with
  | .ok true => true
  | _ => false

/-- The beacon in a datagram. -/
def Receipt.beacon? (r : Receipt) : Option Beacon := (Beacon.decode r.payload).toOption

/-- The datagrams of one peer that were accepted. -/
def acceptedFrom (log : List Receipt) (peer : Address) : List Receipt :=
  log.filter fun r => r.accepted && r.sender = peer

/-- What an agent has been through since it was created, with all datagrams that it was told of. Its
calls come in any order. -/
inductive Hears {ε : Type} [Ranked ε] (wrap : Duty → ε) : List Receipt → Scene ε → Prop
  | created (id : Address) (role : Role) (settings : AgentSettings) (track : Track) (w : World ε) :
    Hears wrap [] ⟨Agent.create id role settings, track, w⟩
  /-- Anything happens to its track and to the world. -/
  | meanwhile {log : List Receipt} {s : Scene ε} (track : Track) (w : World ε)
    (h : Hears wrap log s) : Hears wrap log ⟨s.agent, track, w⟩
  | starts {log : List Receipt} {s s' : Scene ε} {r : Except Failure Unit} (h : Hears wrap log s)
    (start : Act.start wrap s = returned r s') : Hears wrap log s'
  | hears {log : List Receipt} {s s' : Scene ε} {r : Except Failure Bool} (sender : Address)
    (payload : List UInt8) (h : Hears wrap log s)
    (receive : Act.receive sender payload s = returned r s') :
    Hears wrap (log ++ [⟨sender, payload, r⟩]) s'
  | does {log : List Receipt} {s s' : Scene ε} {r : Except Failure Unit} (duty : Duty)
    (h : Hears wrap log s) (handle : Act.handle wrap duty s = returned r s') : Hears wrap log s'
  | stops {log : List Receipt} {s s' : Scene ε} {r : Except Failure Unit} (h : Hears wrap log s)
    (stop : Act.stop s = returned r s') : Hears wrap log s'

/-- An agent remembers just what it has accepted. -/
structure Agent.Remembers (log : List Receipt) (a : Agent) : Prop where
  consistent : a.Consistent
  entered : ∀ peer, peer ∈ a.table.beacons.keys ↔ acceptedFrom log peer ≠ []
  count : ∀ peer, a.received.get peer = (acceptedFrom log peer).length
  last : ∀ peer, a.table.get? peer = (acceptedFrom log peer).getLast?.bind Receipt.beacon?

namespace Agent.Remembers

variable {log : List Receipt} {a a' : Agent}

theorem create (id : Address) (role : Role) (settings : AgentSettings) :
    (Agent.create id role settings).Remembers [] :=
  ⟨.create id role settings, fun _ => iff_of_false List.not_mem_nil (not_not.2 rfl), fun _ => rfl,
    fun _ => rfl⟩

theorem frame (h : a.Remembers log) (hmemory : a'.memory = a.memory) : a'.Remembers log := by
  obtain ⟨hid, htable, hreceived⟩ : a'.id = a.id ∧ a'.table = a.table ∧ a'.received = a.received :=
    ⟨congrArg Memory.id hmemory, congrArg Memory.table hmemory, congrArg Memory.received hmemory⟩
  refine ⟨⟨?_, ?_, ?_⟩, ?_, ?_, ?_⟩ <;> simp only [hid, htable, hreceived]
  exacts [h.consistent.owner, h.consistent.keys, h.consistent.other, h.entered, h.count, h.last]

theorem acceptedFrom_concat (log : List Receipt) (r : Receipt) (peer : Address) :
    acceptedFrom (log ++ [r]) peer =
      acceptedFrom log peer ++ if r.accepted && r.sender = peer then [r] else [] := by
  rw [acceptedFrom, List.filter_append, List.filter_singleton, Bool.cond_eq_ite, ← acceptedFrom]

/-- What is not accepted leaves no trace. -/
theorem refuse {r : Receipt} (h : a.Remembers log) (hr : r.accepted = false) :
    a.Remembers (log ++ [r]) := by
  have hsame : ∀ peer, acceptedFrom (log ++ [r]) peer = acceptedFrom log peer := fun peer => by
    rw [acceptedFrom_concat, hr, Bool.false_and, if_neg Bool.false_ne_true, List.append_nil]
  refine ⟨h.consistent, ?_, ?_, ?_⟩ <;> simp only [hsame]
  exacts [h.entered, h.count, h.last]

/-- What is accepted is counted and taken down, and nothing else changes. -/
theorem accept {sender : Address} {payload : List UInt8} {beacon : Beacon} {received : Tally}
    {table : PeerTable} (h : a.Remembers log) (other : sender ≠ a.id)
    (decodes : Beacon.decode payload = .ok beacon)
    (counts : a.received.increment sender = .ok received)
    (learns : a.table.update sender beacon = .ok table) :
    Remembers (log ++ [⟨sender, payload, .ok true⟩]) { a with received, table } := by
  have howner : sender ≠ a.table.owner := h.consistent.owner ▸ other
  have hlog : ∀ peer, acceptedFrom (log ++ [⟨sender, payload, .ok true⟩]) peer =
      acceptedFrom log peer ++ if peer = sender then [⟨sender, payload, .ok true⟩] else [] := by
    intro peer
    rw [acceptedFrom_concat]
    simp only [Receipt.accepted, Bool.true_and, decide_eq_true_eq, eq_comm (a := peer)]
  refine ⟨h.consistent.hears other counts learns, fun peer => ?_, fun peer => ?_, fun peer => ?_⟩
  · rw [hlog, Registry.mem_keys_put? (PeerTable.update_eq_ok howner learns).2, h.entered]
    by_cases hp : peer = sender <;> simp [hp]
  · show received.get peer = _
    rw [hlog, Tally.get_increment counts, h.count, List.length_append]
    split <;> rfl
  · show table.get? peer = _
    rw [hlog, PeerTable.get?_update howner learns, h.last]
    split
    · rw [List.getLast?_append, List.getLast?_singleton, Option.some_or, Option.bind_some,
        Receipt.beacon?, decodes]
      rfl
    · rw [List.append_nil]

end Agent.Remembers

theorem Agent.Remembers.hears {ε : Type} {log : List Receipt} {s s' : Scene ε}
    {r : Except Failure Bool} {sender : Address} {payload : List UInt8}
    (h : s.agent.Remembers log) (receive : Act.receive sender payload s = returned r s') :
    s'.agent.Remembers (log ++ [⟨sender, payload, r⟩]) := by
  obtain ⟨r', s'', heq, hreceives⟩ := h.consistent.receives sender payload
  obtain ⟨rfl, rfl⟩ := returned_inj (receive.symm.trans heq)
  cases hreceives with
  | drops w reason => exact h.refuse rfl
  | overflows other decodes full => exact h.refuse rfl
  | accepts running other decodes admits counts learns => exact h.accept other decodes counts learns

variable {ε : Type} [Ranked ε] {wrap : Duty → ε}

theorem Hears.remembers {log : List Receipt} {s : Scene ε} (h : Hears wrap log s) :
    s.agent.Remembers log := by
  have hframe : ∀ {α : Type} {x : Act ε α} {s s' : Scene ε} {r : Except Failure α}
      {log : List Receipt}, Act.Unheeding x → x s = returned r s' → s.agent.Remembers log →
      s'.agent.Remembers log := by
    intro α x s s' r log hx heq hs
    have hmemory := hx s
    rw [heq] at hmemory
    exact hs.frame hmemory.of_returned
  induction h with
  | created id role settings => exact .create id role settings
  | meanwhile track w h ih => exact ih
  | starts h start ih => exact hframe .start start ih
  | hears sender payload h receive ih => exact ih.hears receive
  | does duty h handle ih => exact hframe (.handle duty) handle ih
  | stops h stop ih => exact hframe .stop stop ih

/-- At every point of its life an agent knows just the peers from which it has accepted something,
how much that was and what it was last. The next datagram is accepted by a running agent if it
comes from another one, is a beacon, and there is room for its sender; it is refused as one
too many if just that is missing; and one that is not accepted changes nothing. -/
theorem Hears.receives_exactly {log : List Receipt} {s : Scene ε} (h : Hears wrap log s) :
    (∀ peer, s.agent.table.contains peer ↔ 0 < s.agent.received.get peer) ∧
    ¬ s.agent.table.contains s.agent.id ∧
    (∀ peer, s.agent.received.get peer = (acceptedFrom log peer).length) ∧
    (∀ peer, s.agent.table.get? peer =
      (acceptedFrom log peer).getLast?.bind Receipt.beacon?) ∧
    (s.agent.stage = .running → ∀ sender payload, ∃ r s',
      Act.receive sender payload s = returned r s' ∧
      (r = .ok true ↔ sender ≠ s.agent.id ∧ (∃ beacon, Beacon.decode payload = .ok beacon) ∧
        (s.agent.table.contains sender ∨ s.agent.table.size < 128)) ∧
      (r = .error .swarmSizeExceeded ↔
        sender ≠ s.agent.id ∧ (∃ beacon, Beacon.decode payload = .ok beacon) ∧
          ¬ (s.agent.table.contains sender ∨ s.agent.table.size < 128)) ∧
      (r ≠ .ok true → s'.agent = s.agent)) := by
  have hs := h.remembers
  have hcontains : ∀ peer, s.agent.table.contains peer ↔ acceptedFrom log peer ≠ [] := fun peer =>
    decide_eq_true_iff.trans (hs.entered peer)
  refine ⟨fun peer => ?_, fun hown => ?_, hs.count, hs.last, fun hrun sender payload => ?_⟩
  · rw [hcontains, hs.count, List.length_pos_iff]
  · exact hs.consistent.other (of_decide_eq_true hown)
  · obtain ⟨r, s', heq, hreceives⟩ := hs.consistent.receives sender payload
    refine ⟨r, s', heq, ?_⟩
    cases hreceives with
    | drops w reason =>
      refine ⟨iff_of_false nofun ?_, iff_of_false nofun ?_, fun _ => rfl⟩
      all_goals
        rintro ⟨hother, ⟨beacon, hdecode⟩, -⟩
        rcases reason with hidle | hown | ⟨f, hf⟩
        · exact hidle hrun
        · exact hother hown
        · cases hdecode.symm.trans hf
    | overflows other decodes full =>
      exact ⟨iff_of_false nofun fun h => full h.2.2,
        iff_of_true rfl ⟨other, ⟨_, decodes⟩, full⟩, fun _ => rfl⟩
    | accepts running other decodes admits =>
      exact ⟨iff_of_true rfl ⟨other, ⟨_, decodes⟩, admits⟩,
        iff_of_false nofun fun h => h.2.2 admits, fun h => absurd rfl h⟩

namespace Lone

/-- What the other agent of the swarm makes known at first. -/
def greeting : Beacon := ⟨Vec3.zero, .leader⟩

/-- A follower that has started and heard one beacon knows its sender, and drops an empty
datagram. -/
theorem hears_once : ∃ s s' r,
    Hears id [⟨.ofOctets 10 1 1 2, greeting.encode, .ok true⟩] s ∧ s.agent.stage = .running ∧
    s.agent.received.get (.ofOctets 10 1 1 2) = 1 ∧
    s.agent.table.get? (.ofOctets 10 1 1 2) = some greeting ∧
    Act.receive (.ofOctets 10 1 1 2) [] s = returned r s' ∧ s'.agent = s.agent := by
  obtain ⟨network, bind⟩ := exists_network
  have hstarted : Hears id [] (started network) :=
    (Hears.created _ _ _ _ _).starts (r := .ok ()) (Act.start_eq rfl rfl bind)
  have hother : Address.ofOctets 10 1 1 2 ≠ .ofOctets 10 1 1 1 := by decide
  obtain ⟨-, -, -, -, hnext⟩ := hstarted.receives_exactly
  obtain ⟨r, s, heq, haccepts, -⟩ := hnext rfl (.ofOctets 10 1 1 2) greeting.encode
  obtain rfl := haccepts.2 ⟨hother, ⟨_, greeting.decode_encode⟩, .inr (Nat.zero_lt_succ 127)⟩
  have hheard : Hears id [⟨.ofOctets 10 1 1 2, greeting.encode, .ok true⟩] s :=
    hstarted.hears _ _ heq
  have hrun : s.agent.stage = .running := by
    have hkeeps := @Act.receive_returns Duty _ False (started network) (.ofOctets 10 1 1 2)
      greeting.encode
    rw [heq] at hkeeps
    exact hkeeps.of_returned.stage
  obtain ⟨-, -, hcount, hlast, hnext⟩ := hheard.receives_exactly
  obtain ⟨r, s', heq', haccepts', -, hsame⟩ := hnext hrun (.ofOctets 10 1 1 2) []
  refine ⟨s, s', r, hheard, hrun, hcount _, ?_, heq', hsame fun hr => ?_⟩
  · rw [hlast]
    show (Beacon.decode greeting.encode).toOption = _
    rw [greeting.decode_encode]
    rfl
  · obtain ⟨-, ⟨b, hb⟩, -⟩ := haccepts'.1 hr
    cases hb

end Lone

end SwarmFlight
