import SwarmFlight.Proofs.Ledger
import SwarmFlight.Proofs.Run.Invariant
import SwarmFlight.Proofs.Settings.Runnable
import SwarmFlight.Simulation.Building

/-!
# A run that has just been built

`Built` says what a run looks like that `withPositions` has made of some settings
(`built_of_withPositions`). Such a run is sound (`Built.sound`), and the compromises that are
planned in it are due at the set time (`Built.dueFor_eq`).
-/

namespace SwarmFlight

namespace Simulation

/-- A run that was made of some settings. -/
structure Built (s : Settings) (sim : Simulation) : Prop where
  valid : s.validate = .ok ()
  settings : sim.settings = s
  addresses : addresses s = .ok (sim.crafts.map (·.agent.id))
  stopTime : s.stopTime = .ok sim.stopTime
  samplePeriod : s.samplePeriod = .ok sim.samplePeriod
  link : s.link = .ok sim.world.network.link
  finished : sim.finished = false
  queue : ∃ start, s.followerStart = .ok start ∧ sim.world.queue =
    (EventQueue.empty.stopAt sim.stopTime).scheduleAll (firstEvents sim.crafts.length start)
  network : sim.world.network = Network.ofLink sim.world.network.link
  crafts : ∃ shared, s.forAgents = .ok shared ∧ ∀ index c, sim.crafts[index]? = some c →
    ∃ id position, c = firstCraft shared sim.ledger index id position
  ledger : ∀ l, sim.ledger = some l → ∃ c due ids, s.compromise = some c ∧
    s.compromiseTime = .ok (some due) ∧ l = (planCompromise c.hostOctet due ids).ledger

/-! ## Building -/

theorem ofExcept_bind_eq_ok {α β : Type} {x : Except Failure α} {f : α → Building β}
    {j j' : Journal} {b : β} (h : (Building.ofExcept x >>= f) j = .ok b j') :
    ∃ a, x = .ok a ∧ f a j = .ok b j' := by
  cases x with
  | ok a => exact ⟨a, rfl, h⟩
  | error f => cases h

theorem length_mapM {α β : Type} {f : α → Except Failure β} {l : List α} {l' : List β}
    (h : l.mapM f = .ok l') : l'.length = l.length := by
  induction l generalizing l' with
  | nil =>
    cases h
    rfl
  | cons a rest ih =>
    rw [List.mapM_cons] at h
    cases ha : f a with
    | error e =>
      rw [ha] at h
      cases h
    | ok b =>
      cases hr : rest.mapM f with
      | error e =>
        rw [ha, hr] at h
        cases h
      | ok bs =>
        rw [ha, hr] at h
        cases h
        exact congrArg Nat.succ (ih hr)

theorem buildLedger_eq_ok {s : Settings} {ids : List Address} {j j' : Journal}
    {ledger : Option Ledger} (h : buildLedger s ids j = .ok ledger j') (l : Ledger)
    (hl : ledger = some l) : ∃ c due, s.compromise = some c ∧
      s.compromiseTime = .ok (some due) ∧ l = (planCompromise c.hostOctet due ids).ledger := by
  subst hl
  unfold buildLedger at h
  obtain ⟨due, hdue, h⟩ := ofExcept_bind_eq_ok h
  cases hc : s.compromise with
  | none =>
    rw [hc] at h
    cases h
  | some c =>
    cases due with
    | none =>
      rw [hc] at h
      cases h
    | some due =>
      rw [hc] at h
      simp only [Act.bind_apply, Act.modify_apply] at h
      cases hadded : (planCompromise c.hostOctet due ids).added with
      | error f =>
        rw [hadded] at h
        cases h
      | ok n =>
        rw [hadded] at h
        cases h
        exact ⟨c, due, rfl, hdue, rfl⟩

theorem built_of_withPositions {s : Settings} {positions : List Vec3} {telemetry : Telemetry}
    {j j' : Journal} {sim : Simulation} (h : withPositions s positions telemetry j = .ok sim j') :
    sim.Built s := by
  unfold withPositions at h
  obtain ⟨_, hvalid, h⟩ := ofExcept_bind_eq_ok h
  split at h
  · cases h
  rename_i hlength
  obtain ⟨ids, hids, h⟩ := ofExcept_bind_eq_ok h
  rw [Act.bind_apply] at h
  split at h
  · rename_i ledger j₁ hledger
    obtain ⟨shared, hshared, h⟩ := ofExcept_bind_eq_ok h
    obtain ⟨stopTime, hstop, h⟩ := ofExcept_bind_eq_ok h
    obtain ⟨start, hstart, h⟩ := ofExcept_bind_eq_ok h
    obtain ⟨link, hlink, h⟩ := ofExcept_bind_eq_ok h
    obtain ⟨period, hperiod, h⟩ := ofExcept_bind_eq_ok h
    cases h
    have hpositions : positions.length = ids.length := by
      rw [length_mapM hids, List.length_range]
      exact not_not.1 hlength
    refine ⟨hvalid, rfl, ?_, hstop, hperiod, hlink, rfl, ⟨start, hstart, ?_⟩, rfl,
      ⟨shared, hshared, ?_⟩, ?_⟩
    · have hzip := List.map_fst_zip (Nat.le_of_eq hpositions.symm)
      refine hids.trans (congrArg Except.ok (List.ext_getElem? fun index => ?_))
      conv_lhs => rw [← hzip]
      rw [List.getElem?_map, List.getElem?_map, List.getElem?_mapIdx, Option.map_map]
      rfl
    · rw [List.length_mapIdx, List.length_zip, hpositions, Nat.min_self]
      rfl
    · intro index c hc
      rw [List.getElem?_mapIdx] at hc
      obtain ⟨⟨id, position⟩, -, rfl⟩ := Option.map_eq_some_iff.1 hc
      exact ⟨id, position, rfl⟩
    · intro l hl
      obtain ⟨c, due, hc, hdue, rfl⟩ := buildLedger_eq_ok hledger l hl
      exact ⟨c, due, ids, hc, hdue, rfl⟩
  · cases h

end Simulation

theorem Ledger.due_of_dueFor {l : Ledger} (hp : l.Forall fun c => c.due = l.due) {id : Address}
    {due : Instant} (h : l.dueFor id = some due) : due = l.due := by
  unfold dueFor Registry.get? at h
  rw [Option.map_map, Option.map_eq_some_iff] at h
  obtain ⟨e, he, rfl⟩ := h
  exact hp e (List.mem_of_find?_eq_some he)

namespace Simulation

/-! ## The first state -/

variable {s : Settings} {sim : Simulation}

theorem Built.fresh (h : sim.Built s) {c : Craft} (hc : c ∈ sim.crafts) :
    c.agent.stage = .uninitialized ∧ c.agent.slots = {} ∧ c.agent.compromised = false := by
  obtain ⟨shared, -, hcrafts⟩ := h.crafts
  obtain ⟨index, hindex⟩ := List.getElem?_of_mem hc
  obtain ⟨id, position, rfl⟩ := hcrafts index c hindex
  exact ⟨rfl, rfl, rfl⟩

/-- The queue that a run starts with holds its first events. -/
theorem Built.live (h : sim.Built s) : ∃ start, s.followerStart = .ok start ∧
    sim.world.queue.live.Perm ((EventQueue.empty.stopAt sim.stopTime).newEntries
      (firstEvents sim.crafts.length start)) := by
  obtain ⟨start, hstart, hq⟩ := h.queue
  refine ⟨start, hstart, ?_⟩
  rw [hq]
  have hwf := EventQueue.wellFormed_empty.stopAt (ε := Event) sim.stopTime
  simpa using hwf.live_scheduleAll

/-- At first there are starts, those of followers at the set time, and the first sample. -/
theorem Built.first_of_live (h : sim.Built s) {start : Instant} (hs : s.followerStart = .ok start)
    {e : Entry Event} (he : e ∈ sim.world.queue.live) :
    (∃ index, e.event = .start index ∧ (index ≠ 0 → e.due = start)) ∨ e.event = .sample := by
  obtain ⟨start', hstart', hlive⟩ := h.live
  cases hs.symm.trans hstart'
  have hmem := List.mem_map_of_mem (f := fun e => (e.due, e.event)) (hlive.mem_iff.1 he)
  rw [EventQueue.newEntries_map] at hmem
  obtain ⟨x, hx, heq⟩ := List.mem_map.1 hmem
  obtain ⟨hdue, hevent⟩ := Prod.mk.inj heq
  rw [← hdue, ← hevent]
  simp only [firstEvents, List.cons_append, List.mem_cons, List.mem_append, List.mem_map,
    List.not_mem_nil, or_false] at hx
  rcases hx with rfl | ⟨i, -, rfl⟩ | rfl
  · exact .inl ⟨0, rfl, fun hne => absurd rfl hne⟩
  · exact .inl ⟨i + 1, rfl, fun _ => Duration.max_eq_left (Nat.zero_le _)⟩
  · exact .inr rfl

/-- Whatever compromise is planned is due at the set time. -/
theorem Built.dueFor_eq (h : sim.Built s) {time due : Instant}
    (ht : s.compromiseTime = .ok (some time)) {id : Address}
    (hdue : (sim.ledger.bind fun l => l.dueFor id) = some due) : due = time := by
  obtain ⟨l, hl, hdue⟩ := Option.bind_eq_some_iff.1 hdue
  obtain ⟨c, time', ids, -, htime', rfl⟩ := h.ledger l hl
  cases ht.symm.trans htime'
  have hp : (Ledger.empty time).Forall fun c => c.due = time :=
    fun e he => absurd he List.not_mem_nil
  obtain ⟨hpunctual, hsame⟩ := Ledger.forall_planFrom hp fun _ _ => rfl
  exact (Ledger.due_of_dueFor (hsame ▸ hpunctual) hdue).trans hsame

theorem Built.sound (h : sim.Built s) : sim.Sound := by
  obtain ⟨start, -, hq⟩ := h.queue
  have hwf := (@EventQueue.wellFormed_empty Event).stopAt sim.stopTime
  refine ⟨?_, ?_, ?_, fun c hc _ => (h.fresh hc).2.1, ?_⟩
  · rw [hq]
    exact hwf.scheduleAll
  · intro e he
    obtain ⟨start, -, hlive⟩ := h.live
    exact EventQueue.rank_of_mem_newEntries (hlive.mem_iff.1 he)
  · rw [hq, EventQueue.stopTime_scheduleAll]
    rfl
  · intro a ha
    rw [h.network] at ha
    cases ha

/-- The value that building has come to, if it has. -/
def Building.value? {α : Type} : EStateM.Result Halt Journal α → Option α
  | .ok a _ => some a
  | .error _ _ => none

/-- A run of a leader and a follower that is to be compromised. -/
theorem exists_pair : ∃ first j' c, withPositions .pair [⟨0.0, 0.0, 0.0⟩, ⟨1.0, 0.0, 0.0⟩]
    (.recorder {}) (Journal.ofThreshold none) = .ok first j' ∧ first.crafts[1]? = some c ∧
      c.agent.role = .follower ∧ (first.ledger.bind fun l => l.dueFor c.agent.id).isSome ∧
      first.crafts.map (·.agent.id) = [.ofOctets 10 1 1 1, .ofOctets 10 1 1 2] := by
  have h : ((Building.value? (withPositions .pair [⟨0.0, 0.0, 0.0⟩, ⟨1.0, 0.0, 0.0⟩] (.recorder {})
      (Journal.ofThreshold none))).any fun first => first.crafts[1]?.any fun c =>
        decide (c.agent.role = .follower ∧
          (first.ledger.bind fun l => l.dueFor c.agent.id).isSome ∧
          first.crafts.map (·.agent.id) = [.ofOctets 10 1 1 1, .ofOctets 10 1 1 2])) = true := by
    decide +kernel
  cases hbuilt : withPositions .pair [⟨0.0, 0.0, 0.0⟩, ⟨1.0, 0.0, 0.0⟩] (.recorder {})
      (Journal.ofThreshold none) with
  | error f j' =>
    rw [hbuilt] at h
    cases h
  | ok first j' =>
    rw [hbuilt] at h
    obtain ⟨c, hc, h⟩ := (Option.any_eq_true _ first.crafts[1]?).1 h
    exact ⟨first, j', c, rfl, hc, of_decide_eq_true h⟩

/-- What is to come at the beginning of a run of a leader and a follower. -/
theorem Built.live_of_pair (h : sim.Built .pair) (hlength : sim.crafts.length = 2) :
    Duration.zero < sim.stopTime ∧ sim.world.queue.live.Perm
      [⟨.zero, 1, 0, .start 0⟩, ⟨.zero, 1, 1, .start 1⟩, ⟨.zero, 1, 2, .sample⟩] := by
  obtain ⟨hstop, hstart, -⟩ := Settings.pair_times
  obtain ⟨start, hstart', hlive⟩ := h.live
  cases hstart.symm.trans hstart'
  rw [hlength] at hlive
  refine ⟨?_, hlive⟩
  rw [Except.ok.inj (h.stopTime.symm.trans hstop)]
  decide

end Simulation

end SwarmFlight
