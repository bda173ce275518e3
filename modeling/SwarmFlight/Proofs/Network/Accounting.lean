import SwarmFlight.Proofs.Dialogue
import SwarmFlight.Proofs.Network

/-!
# How a network accounts for datagrams

Endpoints come and go, addresses are refused, datagrams are sent, collected and delivered, in
any order and also more than once. `Follows` says how a network follows from all calls so far.
Calls that neither send nor collect nor deliver leave the accounts alone (`Follows.still`), and
the others move datagrams from one account to another (`Follows.send`, `Follows.collect`,
`Follows.deliver`). So the network is `Accountable` after any calls (`accountable_calls`).
-/

namespace SwarmFlight

namespace Network

/-- What a network can be asked for. -/
inductive Request where
  | bind (a : Address)
  | refuse (a : Address)
  | close (a : Address)
  | send (sender receiver : Address) (payload : List UInt8)
  /-- Take the datagrams that were sent and not lost. -/
  | collect
  | deliver (d : Datagram)

/-- Whether a request may be turned down. -/
def Request.mayFail : Request → Bool
  | .bind _ | .refuse _ | .send _ _ _ => true
  | .close _ | .collect | .deliver _ => false

/-- What a network answers. -/
inductive Answer where
  | done
  | failed (f : Failure)
  | collected (ds : List Datagram)
  /-- The datagram, if there is an endpoint for it. -/
  | arrived (d : Option Datagram)

/-- The answer to a request that may fail. -/
def settle (n : Network) : Except Failure Network → Answer × Network
  | .ok n' => (.done, n')
  | .error f => (.failed f, n)

/-- Answer a request. -/
def serve (n : Network) : Request → Answer × Network
  | .bind a => n.settle (n.bind a)
  | .refuse a => n.settle (n.refuse a)
  | .close a => (.done, n.close a)
  | .send sender receiver payload => n.settle ((Datagram.make sender receiver payload).map n.send)
  | .collect =>
    let (s, n) := n.collect
    (.collected s.surviving, n)
  | .deliver d =>
    let (d, n) := n.deliver d
    (.arrived d, n)

/-! ## What calls tell -/

/-- The requests to a network so far with their answers. -/
abbrev Log := List (Call Request Answer)

namespace Log

/-- The datagrams that were accepted for sending, in order. -/
def accepted (log : Log) : List Datagram :=
  log.filterMap fun c =>
    match c.request, c.answer with
    | .send sender receiver payload, .done => some ⟨sender, receiver, payload⟩
    | _, _ => none

/-- The datagrams that were collected, in order. -/
def collected (log : Log) : List Datagram :=
  log.flatMap fun c =>
    match c.answer with
    | .collected ds => ds
    | _ => []

/-- How many times a datagram was to be delivered. -/
def deliveries (log : Log) : Nat :=
  log.countP fun c =>
    match c.request with
    | .deliver _ => true
    | _ => false

/-- The endpoint that was set up last at an address has not been given up since. -/
def Holds (log : Log) (a : Address) : Prop :=
  ∃ pre post, log = pre ++ ⟨.bind a, .done⟩ :: post ∧ ∀ c ∈ post, c.request ≠ .close a

variable {log : Log} {c : Call Request Answer} {a : Address}

theorem accepted_concat (log : Log) (c : Call Request Answer) :
    accepted (log ++ [c]) = log.accepted ++ accepted [c] := List.filterMap_append

theorem collected_concat (log : Log) (c : Call Request Answer) :
    collected (log ++ [c]) = log.collected ++ collected [c] := List.flatMap_append

theorem deliveries_concat (log : Log) (c : Call Request Answer) :
    deliveries (log ++ [c]) = log.deliveries + deliveries [c] := List.countP_append

theorem holds_concat : Holds (log ++ [c]) a ↔
    c = ⟨.bind a, .done⟩ ∨ log.Holds a ∧ c.request ≠ .close a := by
  constructor
  · rintro ⟨pre, post, heq, hpost⟩
    -- the endpoint was set up by the last call, or the last call came after that
    rcases List.eq_nil_or_concat post with rfl | ⟨post, c', rfl⟩
    · exact .inl (List.singleton_inj.1 (List.append_inj' heq rfl).2)
    · rw [List.concat_eq_append, ← List.cons_append, ← List.append_assoc] at heq
      obtain ⟨hlog, hc⟩ := List.append_inj' heq rfl
      obtain rfl := List.singleton_inj.1 hc
      refine .inr ⟨⟨pre, post, hlog, fun x hx => hpost x ?_⟩, hpost c ?_⟩
      · simp [hx]
      · simp
  · rintro (rfl | ⟨⟨pre, post, rfl, hpost⟩, hc⟩)
    · exact ⟨log, [], rfl, by simp⟩
    · refine ⟨pre, post ++ [c], by simp, fun x hx => ?_⟩
      rcases List.mem_append.1 hx with hx | hx
      · exact hpost x hx
      · exact List.mem_singleton.1 hx ▸ hc

end Log

variable {n n' : Network} {log : Log} {c : Call Request Answer}

/-! ## How a network follows from the calls -/

/-- The network that has come of some calls. -/
structure Follows (log : Log) (n : Network) : Prop where
  sent : n.stats.sent = log.accepted.length
  balance : n.stats.sent = n.stats.lost + log.collected.length + n.outbox.size
  order : (log.collected ++ n.outbox.toList).Sublist log.accepted
  arrivals : n.stats.delivered + n.stats.unreachable = log.deliveries
  bound : ∀ a, n.isBound a ↔ log.Holds a

theorem Follows.ofLink (link : Link) : Follows [] (ofLink link) where
  sent := rfl
  balance := rfl
  order := List.Sublist.slnil
  arrivals := rfl
  bound a := by
    refine iff_of_false Bool.false_ne_true ?_
    rintro ⟨pre, post, heq, -⟩
    simp at heq

/-- A call that moves no datagram leaves the accounts as they are. -/
theorem Follows.still (h : Follows log n) (hstats : n'.stats = n.stats)
    (houtbox : n'.outbox = n.outbox) (haccepted : Log.accepted [c] = [])
    (hcollected : Log.collected [c] = []) (hdeliveries : Log.deliveries [c] = 0)
    (hbound : ∀ a, n'.isBound a ↔ c = ⟨.bind a, .done⟩ ∨ n.isBound a ∧ c.request ≠ .close a) :
    Follows (log ++ [c]) n' where
  sent := by rw [hstats, h.sent, Log.accepted_concat, haccepted, List.append_nil]
  balance := by rw [hstats, houtbox, h.balance, Log.collected_concat, hcollected, List.append_nil]
  order := by
    rw [Log.collected_concat, hcollected, List.append_nil, houtbox, Log.accepted_concat,
      haccepted, List.append_nil]
    exact h.order
  arrivals := by rw [hstats, h.arrivals, Log.deliveries_concat, hdeliveries, Nat.add_zero]
  bound a := by rw [Log.holds_concat, ← h.bound, hbound]

theorem Follows.bind (h : Follows log n) {a : Address} (hbind : n.bind a = .ok n') :
    Follows (log ++ [⟨.bind a, .done⟩]) n' := by
  obtain ⟨bound, rfl, hbound⟩ := bind_eq_ok hbind
  refine h.still rfl rfl rfl rfl rfl fun b => ?_
  rw [hbound]
  simp [@eq_comm _ a]

theorem Follows.refuse (h : Follows log n) {a : Address} (hrefuse : n.refuse a = .ok n') :
    Follows (log ++ [⟨.refuse a, .done⟩]) n' := by
  unfold Network.refuse at hrefuse
  split at hrefuse
  · cases hrefuse
    exact h.still rfl rfl rfl rfl rfl fun b => by simp [isBound]
  · cases hrefuse

theorem Follows.close (h : Follows log n) (a : Address) :
    Follows (log ++ [⟨.close a, .done⟩]) (n.close a) := by
  refine h.still rfl rfl rfl rfl rfl fun b => ?_
  rw [isBound_close]
  simp [@eq_comm _ a, and_comm]

/-- What is sent waits behind what was sent before. -/
theorem Follows.send (h : Follows log n) (d : Datagram) :
    Follows (log ++ [⟨.send d.sender d.receiver d.payload, .done⟩]) (n.send d) where
  sent := by
    rw [Log.accepted_concat, List.length_append, ← h.sent]
    rfl
  balance := by
    have hbalance := h.balance
    have hcollected : Log.collected [⟨.send d.sender d.receiver d.payload, .done⟩] = [] := rfl
    rw [Log.collected_concat, hcollected, List.append_nil]
    simp only [Network.send, Array.size_push]
    omega
  order := by
    rw [Log.collected_concat, Log.accepted_concat]
    simp only [Network.send, Array.toList_push, ← List.append_assoc]
    exact List.Sublist.append (by simpa [Log.collected] using h.order) (List.Sublist.refl _)
  arrivals := by
    rw [Log.deliveries_concat, ← h.arrivals]
    rfl
  bound a := by
    rw [Log.holds_concat, ← h.bound]
    simp [Network.send, isBound]

/-- What waits is lost or collected, and nothing goes on waiting. -/
theorem Follows.collect (h : Follows log n) :
    Follows (log ++ [⟨.collect, .collected n.collect.1.surviving⟩]) n.collect.2 where
  sent := by
    rw [Log.accepted_concat, List.length_append, ← h.sent]
    rfl
  balance := by
    have hbalance := h.balance
    have hsorted := length_sortOut n.link.loss n.generator n.outbox.toList
    have hcollected (ds : List Datagram) : Log.collected [⟨.collect, .collected ds⟩] = ds :=
      List.append_nil ds
    rw [Array.length_toList] at hsorted
    rw [Log.collected_concat, hcollected, List.length_append]
    simp only [Network.collect, List.size_toArray, List.length_nil]
    omega
  order := by
    -- what gets through takes the place of all that waited
    have hsorted := surviving_sublist n.link.loss n.generator n.outbox.toList
    rw [Log.collected_concat, Log.accepted_concat]
    simpa [Log.collected, Log.accepted, Network.collect] using
      ((List.Sublist.refl log.collected).append hsorted).trans h.order
  arrivals := by
    rw [Log.deliveries_concat, ← h.arrivals]
    rfl
  bound a := by
    rw [Log.holds_concat, ← h.bound]
    simp [Network.collect, isBound]

theorem deliver_fst (n : Network) (d : Datagram) :
    (n.deliver d).1 = if n.isBound d.receiver then some d else none := by
  unfold deliver
  split <;> rfl

theorem deliver_snd (n : Network) (d : Datagram) : ∃ stats, (n.deliver d).2 = { n with stats } ∧
    stats.sent = n.stats.sent ∧ stats.lost = n.stats.lost ∧
      stats.delivered + stats.unreachable = n.stats.delivered + n.stats.unreachable + 1 := by
  unfold deliver
  split
  · exact ⟨_, rfl, rfl, rfl, Nat.add_right_comm _ _ _⟩
  · exact ⟨_, rfl, rfl, rfl, rfl⟩

/-- What is to be delivered is counted, whether there is somebody to receive it or not. -/
theorem Follows.deliver (h : Follows log n) (d : Datagram) :
    Follows (log ++ [⟨.deliver d, .arrived (n.deliver d).1⟩]) (n.deliver d).2 := by
  obtain ⟨stats, hsnd, hsent, hlost, harrivals⟩ := n.deliver_snd d
  rw [hsnd]
  refine ⟨?_, ?_, ?_, ?_, fun a => ?_⟩
  · rw [hsent, h.sent, Log.accepted_concat, List.length_append]
    rfl
  · rw [hsent, hlost, h.balance, Log.collected_concat, List.length_append]
    rfl
  · rw [Log.collected_concat, Log.accepted_concat]
    simpa [Log.collected, Log.accepted] using h.order
  · rw [harrivals, h.arrivals, Log.deliveries_concat]
    rfl
  · rw [Log.holds_concat, ← h.bound]
    simp [isBound]

/-! ## Any calls -/

/-- A call that fails leaves the network and its accounts as they are. -/
theorem Follows.settle (h : Follows log n) {r : Request} (hr : r.mayFail)
    {x : Except Failure Network} (hok : ∀ n', x = .ok n' → Follows (log ++ [⟨r, .done⟩]) n') :
    Follows (log ++ [⟨r, (n.settle x).1⟩]) (n.settle x).2 := by
  cases x with
  | ok n' => exact hok n' rfl
  | error f =>
    cases r with
    | bind | refuse | send => exact h.still rfl rfl rfl rfl rfl fun _ => by simp [Network.settle]
    | close | collect | deliver => cases hr

theorem Follows.serve (h : Follows log n) (r : Request) :
    Follows (log ++ [⟨r, (n.serve r).1⟩]) (n.serve r).2 := by
  cases r with
  | bind a => exact h.settle rfl fun _ => h.bind
  | refuse a => exact h.settle rfl fun _ => h.refuse
  | close a => exact h.close a
  | send sender receiver payload =>
    refine h.settle rfl fun n' hsend => ?_
    unfold Datagram.make at hsend
    split at hsend
    · cases hsend
      exact h.send ⟨sender, receiver, payload⟩
    · cases hsend
  | collect => exact h.collect
  | deliver d => exact h.deliver d

/-- What holds of the accounts of a network that has come of the calls in `log`. -/
structure Accountable (log : Log) (n : Network) : Prop where
  sent : n.stats.sent = log.accepted.length
  /-- Just what is not too long is accepted. -/
  accepts : ∀ sender receiver payload,
    (n.serve (.send sender receiver payload)).1 = .done ↔ payload.length ≤ maxDatagramSize
  /-- What was sent is lost, collected or still waiting. -/
  balance : n.stats.sent = n.stats.lost + log.collected.length + n.outbox.size
  /-- What is collected was sent as it is, and in the same order. -/
  order : log.collected.Sublist log.accepted
  arrivals : n.stats.delivered + n.stats.unreachable = log.deliveries
  /-- A datagram arrives where an endpoint was set up that has not been given up since. -/
  arrives : ∀ d, (log.Holds d.receiver → (n.serve (.deliver d)).1 = .arrived (some d)) ∧
    (¬ log.Holds d.receiver → (n.serve (.deliver d)).1 = .arrived none)
  limit : ∀ as : List Address, as.Nodup → (∀ a ∈ as, n.isBound a) → as.length ≤ swarmLimit
  /-- A call that fails changes nothing. -/
  failed : ∀ r f, (n.serve r).1 = .failed f → (n.serve r).2 = n

theorem serve_send_eq_done {sender receiver : Address} {payload : List UInt8} :
    (n.serve (.send sender receiver payload)).1 = .done ↔ payload.length ≤ maxDatagramSize := by
  simp only [serve, Datagram.make]
  split
  · rename_i hfits
    exact iff_of_true rfl hfits
  · rename_i hlong
    exact iff_of_false nofun hlong

theorem length_le_of_isBound {as : List Address} (hnodup : as.Nodup)
    (h : ∀ a ∈ as, n.isBound a) : as.length ≤ swarmLimit := by
  have hkeys : as ⊆ n.bound.keys := fun a ha => decide_eq_true_iff.1 (h a ha)
  have hlength : as.length ≤ n.bound.keys.length := (hnodup.subperm hkeys).length_le
  rw [Registry.keys, List.length_map] at hlength
  exact hlength.trans n.bound.bounded

theorem settle_failed {x : Except Failure Network} {f : Failure}
    (h : (n.settle x).1 = .failed f) : (n.settle x).2 = n := by
  cases x with
  | ok n' => cases h
  | error f => rfl

theorem serve_failed {r : Request} {f : Failure} (h : (n.serve r).1 = .failed f) :
    (n.serve r).2 = n := by
  cases r with
  | bind | refuse | send => exact settle_failed h
  | close | collect | deliver => cases h

/-- A network can account for all datagrams after any calls, in any order. -/
theorem accountable_calls (link : Link) (requests : List Request) :
    Accountable (calls serve (ofLink link) requests) (after serve (ofLink link) requests) := by
  have h := calls_induction (Follows.ofLink link) (fun _ _ r h => h.serve r) requests
  refine ⟨h.sent, fun _ _ _ => serve_send_eq_done, h.balance,
    (List.sublist_append_left _ _).trans h.order, h.arrivals, fun d => ?_,
    fun _ => length_le_of_isBound, fun _ _ => serve_failed⟩
  rw [← h.bound]
  exact ⟨fun hbound => congrArg Answer.arrived ((deliver_fst _ d).trans (if_pos hbound)),
    fun hnot => congrArg Answer.arrived ((deliver_fst _ d).trans (if_neg hnot))⟩

/-- An endpoint outlasts the refusal of its address, but once given up it cannot come back. -/
example : (after serve (ofLink .usual) [.bind (.ofOctets 10 1 1 1), .refuse (.ofOctets 10 1 1 1),
    .deliver ⟨.ofOctets 10 1 1 2, .ofOctets 10 1 1 1, []⟩, .close (.ofOctets 10 1 1 1),
    .bind (.ofOctets 10 1 1 1),
    .deliver ⟨.ofOctets 10 1 1 2, .ofOctets 10 1 1 1, []⟩]).stats =
      { delivered := 1, unreachable := 1 } := by
  decide

end Network

end SwarmFlight
