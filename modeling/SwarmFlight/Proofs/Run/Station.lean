import SwarmFlight.Proofs.Run.Moves

/-!
# Where an agent stands

While a run goes on, an agent either waits for its start or runs, with its address bound, and
its slots hold just the numbers of its pending duties (`Station`). Whatever happens to other
agents leaves that alone (`Station.frame`), and its own events restore it
(`stationed_of_effect`).
-/

namespace SwarmFlight

namespace Slots

variable {slots : Slots} {duty duty' : Duty} {id : Option EventId}

theorem get_set_of_ne (h : duty' ≠ duty) : (slots.set duty id).get duty' = slots.get duty' := by
  cases duty <;> cases duty' <;> first | rfl | exact absurd rfl h

end Slots

namespace Simulation

open Run

/-! ## Slots and pending duties -/

/-- Slots that hold just the numbers under which the duties of an agent are pending. -/
def Books (q : EventQueue Event) (i : Nat) (slots : Slots) : Prop :=
  ∀ duty, q.numbers (.duty i duty) = (slots.get duty).toList

namespace Books

variable {q q' : EventQueue Event} {i : Nat} {slots : Slots} {e : Entry Event}

theorem perm_toList {id : Option EventId} {l : List EventId} (h : l.Perm id.toList) :
    l = id.toList := by
  cases id with
  | none => exact List.perm_nil.1 h
  | some id => exact List.perm_singleton.1 h

theorem frame (h : Books q i slots)
    (hn : ∀ duty, (q'.numbers (.duty i duty)).Perm (q.numbers (.duty i duty))) :
    Books q' i slots := fun duty => perm_toList (h duty ▸ hn duty)

/-- A pending duty is the one in its slot. -/
theorem get_eq (h : Books q i slots) {duty : Duty} (he : e ∈ q.live)
    (hevent : e.event = .duty i duty) : slots.get duty = some e.id := by
  have hmem : e.id ∈ q.numbers (.duty i duty) := EventQueue.mem_numbers.2 ⟨e, he, hevent, rfl⟩
  rw [h duty] at hmem
  exact Option.mem_toList.1 hmem

/-- A duty that is taken out of the queue is to be forgotten. -/
theorem take (h : Books q i slots) {duty : Duty} (takes : q.Takes e q')
    (hevent : e.event = .duty i duty) : Books q' i (slots.set duty none) := by
  intro duty'
  by_cases hd : duty' = duty
  · subst hd
    have hself := takes.numbers_self
    rw [hevent, h duty', h.get_eq takes.mem hevent] at hself
    rw [Slots.get_set]
    exact (List.cons_eq_cons.1 (List.singleton_perm.1 hself)).2.symm
  · have hother : e.event ≠ .duty i duty' := by
      rw [hevent]
      exact fun heq => hd (Event.duty.inj heq).2.symm
    rw [Slots.get_set_of_ne hd]
    exact perm_toList (h duty' ▸ (takes.numbers_of_ne hother).symm)

/-- A duty that is scheduled is to be noted. -/
theorem schedule (h : Books q i slots) (hq : q.WellFormed) {duty : Duty}
    (hslot : slots.get duty = none) (time : Instant) :
    Books (q.scheduleAt time (.duty i duty)).2 i (slots.set duty (some q.nextId)) := by
  intro duty'
  by_cases hd : duty' = duty
  · subst hd
    have hself := hq.numbers_scheduleAt time (.duty i duty')
    rw [h duty', hslot] at hself
    rw [Slots.get_set]
    exact List.perm_singleton.1 hself
  · have hother : ∀ x ∈ [(time, Event.duty i duty)], x.2 ≠ .duty i duty' := by
      rintro x hx heq
      rw [List.mem_singleton.1 hx] at heq
      exact hd (Event.duty.inj heq).2.symm
    have hsame := hq.numbers_scheduleAll_of_ne hother
    rw [Slots.get_set_of_ne hd]
    exact perm_toList (h duty' ▸ hsame)

/-- An agent that starts notes its first duties. -/
theorem start (h : Books q i {}) (hq : q.WellFormed) (a : Agent) (now : Instant) :
    Books (q.scheduleAll ((Act.firstDuties a now).map fun x => (x.1, Event.duty i x.2))) i
      (Act.firstSlots a q.nextId) := by
  have hb := h.schedule hq (rfl : Slots.get {} .broadcast = none) now
  have hqb := hq.scheduleAt now (Event.duty i .broadcast)
  have hc := hb.schedule hqb (rfl : Slots.get _ .compute = none) now
  have hqc := hqb.scheduleAt now (Event.duty i .compute)
  have htwo : Books (q.scheduleAll [(now, .duty i .broadcast), (now, .duty i .compute)]) i
      { broadcast := some q.nextId, compute := some (q.nextId + 1) } := hc
  unfold Act.firstDuties Act.firstSlots
  cases a.settings.compromiseAt with
  | none => exact htwo
  | some due =>
    cases a.role with
    | leader => exact htwo
    | follower => exact hc.schedule hqc (rfl : Slots.get _ .compromise = none) (now.max due)

end Books

/-! ## Stations -/

/-- How an agent with a part stands at its place in a world. -/
inductive Stands (w : World Event) (i : Nat) (p : Part) (slots : Slots) : Prop
  /-- It waits for its start, or in vain after that has failed. -/
  | waits (fresh : p.stage = .uninitialized) (plain : p.compromised = false) (slots : slots = {})
      (free : w.network.isBound p.id = false)
      (starts : (w.queue.numbers (.start i)).length ≤ 1)
  /-- It runs, and may have to turn. -/
  | runs (running : p.stage = .running) (bound : w.network.isBound p.id)
      (starts : w.queue.numbers (.start i) = []) (broadcast : slots.broadcast.isSome)
      (compute : slots.compute.isSome) (turn : slots.compromise.isSome →
        p.role = .follower ∧ p.compromised = false ∧ p.settings.compromiseAt.isSome)

/-- An agent with a part stands at its place, and its slots are in order. -/
structure Station (w : World Event) (i : Nat) (p : Part) (slots : Slots) : Prop where
  books : Books w.queue i slots
  stands : Stands w i p slots

namespace Station

variable {w w' : World Event} {i : Nat} {p : Part} {slots : Slots} {e : Entry Event}

/-- What is done elsewhere leaves an agent where it stands. -/
theorem frame (h : Station w i p slots) (hn : ∀ event, event.index? = some i →
      (w'.queue.numbers event).Perm (w.queue.numbers event))
    (hb : w'.network.isBound p.id = w.network.isBound p.id) : Station w' i p slots := by
  refine ⟨h.books.frame fun duty => hn _ rfl, ?_⟩
  have hstart := hn (.start i) rfl
  cases h.stands with
  | waits fresh plain hslots free starts =>
    exact .waits fresh plain hslots (hb.trans free) (hstart.length_eq ▸ starts)
  | runs running bound starts broadcast compute turn =>
    rw [starts, List.perm_nil] at hstart
    exact .runs running (hb.trans bound) hstart broadcast compute turn

/-- An agent whose start is pending has not started. -/
theorem of_start (h : Station w i p slots) (he : e ∈ w.queue.live) (hevent : e.event = .start i) :
    p.stage = .uninitialized ∧ p.compromised = false ∧ slots = {} ∧
      w.network.isBound p.id = false ∧ w.queue.numbers (.start i) = [e.id] := by
  have hmem : e.id ∈ w.queue.numbers (.start i) := EventQueue.mem_numbers.2 ⟨e, he, hevent, rfl⟩
  cases h.stands with
  | waits fresh plain hslots free starts =>
    refine ⟨fresh, plain, hslots, free, ?_⟩
    obtain ⟨id, hid⟩ := List.length_eq_one_iff.1 (starts.antisymm (List.length_pos_of_mem hmem))
    rw [hid, List.mem_singleton] at hmem
    rw [hid, hmem]
  | runs _ _ starts =>
    rw [starts] at hmem
    cases hmem

/-- An agent with a duty pending runs. -/
theorem of_duty (h : Station w i p slots) {duty : Duty} (he : e ∈ w.queue.live)
    (hevent : e.event = .duty i duty) : p.stage = .running ∧ w.network.isBound p.id ∧
      slots.get duty = some e.id := by
  have hslot := h.books.get_eq he hevent
  cases h.stands with
  | waits _ _ hslots =>
    rw [hslots] at hslot
    cases duty <;> cases hslot
  | runs running bound => exact ⟨running, bound, hslot⟩

/-- A running agent that does a duty, forgets about it and may schedule it again. -/
theorem redo {q : EventQueue Event} (h : Station w i p slots) (takes : w.queue.Takes e q)
    {duty : Duty} (hevent : e.event = .duty i duty) (hduty : duty ≠ .compromise)
    (hqueue : ∃ time, w'.queue = (q.scheduleAt time (.duty i duty)).2)
    (hb : w'.network.isBound p.id = w.network.isBound p.id) :
    Station w' i p ((slots.set duty none).set duty (some q.nextId)) := by
  obtain ⟨time, hqueue⟩ := hqueue
  have hbooks := (h.books.take takes hevent).schedule takes.wellFormed (Slots.get_set _ _ _) time
  refine ⟨hqueue ▸ hbooks, ?_⟩
  have hnone : ∀ x ∈ [(time, Event.duty i duty)], x.2 ≠ .start i := by
    rintro x hx heq
    rw [List.mem_singleton.1 hx] at heq
    cases heq
  have hleft : (w.queue.numbers (.start i)).Perm (q.numbers (.start i)) :=
    takes.numbers_of_ne (by rw [hevent]; exact nofun)
  have hstart := (takes.wellFormed.numbers_scheduleAll_of_ne hnone).trans hleft.symm
  cases h.stands with
  | waits _ _ hslots =>
    have hslot := h.books.get_eq takes.mem hevent
    rw [hslots] at hslot
    cases duty <;> cases hslot
  | runs running bound starts broadcast compute turn =>
    rw [starts, List.perm_nil] at hstart
    have hstart' : w'.queue.numbers (.start i) = [] := hqueue ▸ hstart
    refine .runs running (hb.trans bound) hstart' ?_ ?_ ?_
    · cases duty <;> first | exact broadcast | rfl
    · cases duty <;> first | exact compute | rfl
    · cases duty with
      | compromise => exact absurd rfl hduty
      | _ => exact turn

/-- A running agent that turns has nothing left to turn for. -/
theorem turn {q : EventQueue Event} (h : Station w i p slots) (takes : w.queue.Takes e q)
    (hevent : e.event = .duty i .compromise) (hqueue : w'.queue = q)
    (hb : w'.network.isBound p.id = w.network.isBound p.id) :
    Station w' i { p with role := .leader, compromised := true } (slots.set .compromise none) := by
  subst hqueue
  refine ⟨h.books.take takes hevent, ?_⟩
  have hleft : (w.queue.numbers (.start i)).Perm (w'.queue.numbers (.start i)) :=
    takes.numbers_of_ne (by rw [hevent]; exact nofun)
  cases h.stands with
  | waits _ _ hslots =>
    have hslot := h.books.get_eq takes.mem hevent
    rw [hslots] at hslot
    cases hslot
  | runs running bound starts broadcast compute turn =>
    rw [starts, List.nil_perm] at hleft
    exact .runs running (hb.trans bound) hleft broadcast compute nofun

/-- An agent that starts runs from then on. -/
theorem start {q : EventQueue Event} {a : Agent} {n : Network}
    (h : Station w i a.part a.slots) (takes : w.queue.Takes e q) (hevent : e.event = .start i)
    (hbind : w.network.bind a.id = .ok n) (hqueue : w'.queue =
      q.scheduleAll ((Act.firstDuties a q.clock).map fun x => (x.1, Event.duty i x.2)))
    (hnetwork : w'.network = n) :
    Station w' i { a.part with stage := .running } (Act.firstSlots a q.nextId) := by
  obtain ⟨-, hplain, hslots, -, hstarts⟩ := h.of_start takes.mem hevent
  have hbooks : Books q i {} := hslots ▸ h.books.frame fun duty =>
    (takes.numbers_of_ne (by rw [hevent]; exact nofun)).symm
  refine ⟨hqueue ▸ hbooks.start takes.wellFormed a q.clock, ?_⟩
  have hleft := takes.numbers_self
  rw [hevent, hstarts, List.singleton_perm] at hleft
  have hnone : ∀ x ∈ (Act.firstDuties a q.clock).map fun x => (x.1, Event.duty i x.2),
      x.2 ≠ .start i := by
    intro x hx
    obtain ⟨_, -, rfl⟩ := List.mem_map.1 hx
    exact nofun
  have hstart := takes.wellFormed.numbers_scheduleAll_of_ne hnone
  rw [(List.cons_eq_cons.1 hleft).2.symm, ← hqueue, List.perm_nil] at hstart
  obtain ⟨-, -, -, hbound⟩ := Network.bind_ok hbind
  refine .runs rfl ?_ hstart rfl rfl fun hturn => ?_
  · rw [hnetwork]
    exact (hbound _).2 (.inl rfl)
  · unfold Act.firstSlots at hturn
    split at hturn
    · rename_i hplanned
      rw [Bool.and_eq_true] at hplanned
      refine ⟨?_, hplain, hplanned.1⟩
      show a.role = .follower
      cases hrole : a.role with
      | leader => simp [hrole, Role.isLeader] at hplanned
      | follower => rfl
    · cases hturn

end Station

variable {sim sim₁ : Simulation} {e : Entry Event} {q : EventQueue Event}

/-- Every agent stands at its place. -/
def Stationed (sim : Simulation) : Prop :=
  ∀ i c, sim.crafts[i]? = some c → Station sim.world i c.agent.part c.agent.slots

theorem forall_getElem?_set {α : Type} {P : Nat → α → Prop} {l : List α} {i : Nat} {x : α}
    (hself : P i x) (hrest : ∀ j y, j ≠ i → l[j]? = some y → P j y) :
    ∀ j y, (l.set i x)[j]? = some y → P j y := by
  intro j y hy
  rw [List.getElem?_set] at hy
  split at hy
  · rename_i hij
    split at hy
    · cases hy
      exact hij ▸ hself
    · cases hy
  · rename_i hij
    exact hrest j y (Ne.symm hij) hy

/-- What holds of an agent that played a scene and of all others holds of all. -/
theorem forall_played {P : Nat → Craft → Prop} {i : Nat} {s : Scene Event}
    (hself : P i ⟨s.agent, s.track⟩) (hrest : ∀ j c, j ≠ i → sim.crafts[j]? = some c → P j c) :
    ∀ j c, (played sim i s).crafts[j]? = some c → P j c :=
  forall_getElem?_set hself hrest

/-- An event that is for another agent leaves an agent where it stands. -/
theorem station_of_ne (hs : sim.Stationed) (fleet : sim.Fleet)
    (takes : sim.world.queue.Takes e q) (effect : (sim.withQueue q).Effect e.event sim₁)
    {j : Nat} {c : Craft} (hc : sim.crafts[j]? = some c) (hj : e.event.index? ≠ some j) :
    Station sim₁.world j c.agent.part c.agent.slots := by
  refine (hs j c hc).frame (fun event hevent => ?_) ?_
  · refine (effect.numbers_of_ne takes.wellFormed (hevent ▸ hj.symm)).trans ?_
    exact (takes.numbers_of_ne fun heq => hj (heq ▸ hevent)).symm
  · refine effect.isBound_eq fun i c' hstart hc' hid => hj ?_
    rw [hstart, fleet.index_inj hc' hc hid]
    rfl

/-- Every event leaves all agents at their places. -/
theorem stationed_of_effect (hs : sim.Stationed) (fleet : sim.Fleet)
    (takes : sim.world.queue.Takes e q) (effect : (sim.withQueue q).Effect e.event sim₁) :
    sim₁.Stationed := by
  have hother := fun {j : Nat} {c : Craft} (hc : sim.crafts[j]? = some c) hj =>
    station_of_ne hs fleet takes effect hc hj
  have hmem := takes.mem
  generalize hevent : e.event = event at effect hother
  cases effect with
  | @starts i c network craft fresh bind =>
    refine forall_played ?_ fun j c hj hc => hother hc fun h => hj (Option.some.inj h).symm
    exact (hs i c craft).start takes hevent bind rfl rfl
  | broadcasts craft running counts again =>
    refine forall_played ?_ fun j c hj hc => hother hc fun h => hj (Option.some.inj h).symm
    exact (hs _ _ craft).redo takes hevent nofun ⟨_, rfl⟩ rfl
  | computes craft running advance =>
    refine forall_played ?_ fun j c hj hc => hother hc fun h => hj (Option.some.inj h).symm
    exact (hs _ _ craft).redo takes hevent nofun ⟨_, rfl⟩ rfl
  | @turns i c ledger ledger' craft running follower plain planned fires =>
    refine forall_played ?_ fun j c hj hc => hother hc fun h => hj (Option.some.inj h).symm
    exact (hs i c craft).turn takes hevent rfl rfl
  | @hears i c d beacon received table craft =>
    exact forall_played (@hother i c craft nofun) fun j c hj hc => hother hc nofun
  | misses => exact fun j c hc => hother hc nofun
  | samples =>
    intro j c' hc'
    obtain ⟨c, hc, rfl⟩ := Option.map_eq_some_iff.1 (List.getElem?_map.symm.trans hc')
    exact @hother j c hc nofun

end Simulation

end SwarmFlight
