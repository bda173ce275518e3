import Mathlib.Data.Set.Basic
import Mathlib.Order.Interval.Set.Basic
import SwarmFlight.Proofs.Run.Life
import SwarmFlight.Proofs.Run.Station

/-!
# What a stop leaves behind

An agent remembers one number for each duty, and forgets it before it does the duty. If it is
told to do a duty whose tick is still pending, it schedules another one and has lost sight of
the first : that tick has gone astray (`Scene.displaced`).

`Serves` follows an agent from its creation on, through calls in any order and whatever others
do to the queue meanwhile. It keeps the numbers under which the agent scheduled something, and
those that went astray. An agent that stops calls off all it has pending but the strays, and
touches nothing that is not its own (`Serves.stop_calls_off`). So a stop leaves something
behind exactly if a stray is still pending then, as after one call of `handle` too many
(`Lone.stop_leaves_stray`).
-/

namespace SwarmFlight

variable {ε : Type}

/-! ## Queues that others use -/

namespace EventQueue

variable {q q' q'' : EventQueue ε}

/-- What others may do to a queue : it stays in order, and no number is issued twice. -/
structure Evolves (q q' : EventQueue ε) : Prop where
  wellFormed : q'.WellFormed
  nextId : q.nextId ≤ q'.nextId
  old : ∀ e ∈ q'.live, e.id < q.nextId → e ∈ q.live

theorem Evolves.cancel (hq : q.WellFormed) (id : EventId) : q.Evolves (q.cancel id).2 where
  wellFormed := hq.cancel id
  nextId := Nat.le_refl _
  old e he _ := by
    rw [live_cancel] at he
    exact List.mem_of_mem_filter he

theorem Evolves.stopAt (hq : q.WellFormed) (time : Instant) : q.Evolves (q.stopAt time) where
  wellFormed := hq.stopAt time
  nextId := Nat.le_refl _
  old _ he _ := he

theorem Takes.evolves {e : Entry ε} (h : q.Takes e q') : q.Evolves q' where
  wellFormed := h.wellFormed
  nextId := h.nextId.ge
  old _ he _ := h.live.mem_iff.2 (List.mem_cons_of_mem e he)

theorem Drained.evolves (h : q.Drained q') : q.Evolves q' where
  wellFormed := h.wellFormed
  nextId := h.nextId.ge
  old e he _ := by
    rw [h.live] at he
    cases he

/-- Whatever comes of it, taking out the next event is something that may happen to a queue. -/
theorem Evolves.pop (hq : q.WellFormed) : q.Evolves q.pop.2 := by
  rcases hq.pop_cases with ⟨q', hpop, drained, -⟩ | ⟨e, q', hpop, takes, -⟩ <;> rw [hpop]
  · exact drained.evolves
  · exact takes.evolves

theorem Evolves.scheduleAll [Ranked ε] (hq : q.WellFormed) (events : List (Instant × ε)) :
    q.Evolves (q.scheduleAll events) where
  wellFormed := hq.scheduleAll
  nextId := nextId_le_scheduleAll
  old e he hlt := by
    rcases List.mem_append.1 (hq.live_scheduleAll.mem_iff.1 he) with hnew | hold
    · exact absurd (le_id_of_mem_newEntries hnew) (Nat.not_le.2 hlt)
    · exact hold

/-- Calling some events off. -/
theorem isPending_cancelAll (ids : List EventId) (id : EventId) :
    (ids.foldl (fun q id => (q.cancel id).2) q).isPending id = true ↔
      id ∉ ids ∧ q.isPending id = true := by
  induction ids generalizing q with
  | nil => simp
  | cons k rest ih =>
    rw [List.foldl_cons, ih, isPending_cancel, List.mem_cons, not_or, Bool.and_eq_true, bne_iff_ne,
      ne_comm]
    tauto

/-- The numbers issued from one state of a queue to a later one. -/
def issued (q q' : EventQueue ε) : Set EventId := Set.Ico q.nextId q'.nextId

theorem issued_self (h : q'.nextId = q.nextId) : q.issued q' = ∅ := by
  rw [issued, h, Set.Ico_self]

theorem issued_union (h : q.nextId ≤ q'.nextId) (h' : q'.nextId ≤ q''.nextId) :
    q.issued q' ∪ q'.issued q'' = q.issued q'' := Set.Ico_union_Ico_eq_Ico h h'

end EventQueue

theorem Slots.mem_toList {slots : Slots} {id : EventId} :
    id ∈ slots.toList ↔ ∃ duty, slots.get duty = some id := by
  simp only [toList, List.mem_filterMap, List.mem_cons, List.not_mem_nil, or_false, id_eq,
    exists_eq_right]
  constructor
  · rintro (h | h | h)
    · exact ⟨.broadcast, h.symm⟩
    · exact ⟨.compute, h.symm⟩
    · exact ⟨.compromise, h.symm⟩
  · rintro ⟨duty, h⟩
    cases duty
    · exact .inl h.symm
    · exact .inr (.inl h.symm)
    · exact .inr (.inr h.symm)

/-! ## What an agent recalls -/

/-- The pending ticks of a duty under some numbers. -/
def EventQueue.ticksAmong (q : EventQueue ε) (own : Set EventId) (event : ε) : Set EventId :=
  {id ∈ own | ∃ e ∈ q.live, e.id = id ∧ e.event = event}

/-- Of the numbers that an agent scheduled something under, its slots hold all that are pending but
the strays. -/
structure Recalls (wrap : Duty → ε) (own strays : Set EventId) (slots : Slots)
    (q : EventQueue ε) : Prop where
  wellFormed : q.WellFormed
  issued : ∀ id ∈ own, id < q.nextId
  subset : strays ⊆ own
  noted : ∀ duty id, slots.get duty = some id → id ∈ own ∧ id ∉ strays
  event : ∀ duty, ∀ e ∈ q.live, slots.get duty = some e.id → e.event = wrap duty
  kept : ∀ e ∈ q.live, e.id ∈ own → e.id ∈ strays ∨ ∃ duty, slots.get duty = some e.id

namespace Recalls

variable {wrap : Duty → ε} {own strays : Set EventId} {slots : Slots} {q q' : EventQueue ε}

theorem nothing (hq : q.WellFormed) : Recalls wrap ∅ ∅ {} q where
  wellFormed := hq
  issued _ h := h.elim
  subset := Set.empty_subset _
  noted duty id h := by cases duty <;> cases h
  event duty e _ h := by cases duty <;> cases h
  kept _ _ h := h.elim

theorem meanwhile (h : Recalls wrap own strays slots q) (evolves : q.Evolves q') :
    Recalls wrap own strays slots q' where
  wellFormed := evolves.wellFormed
  issued id hid := (h.issued id hid).trans_le evolves.nextId
  subset := h.subset
  noted := h.noted
  event duty e he hslot :=
    h.event duty e (evolves.old e he (h.issued _ (h.noted duty _ hslot).1)) hslot
  kept e he hown := h.kept e (evolves.old e he (h.issued _ hown)) hown

/-- A duty that is forgotten makes its pending tick a stray. -/
theorem forget (h : Recalls wrap own strays slots q) (hwrap : Function.Injective wrap)
    (duty : Duty) :
    Recalls wrap own (strays ∪ q.ticksAmong own (wrap duty)) (slots.set duty none) q where
  wellFormed := h.wellFormed
  issued := h.issued
  subset := Set.union_subset h.subset fun _ hid => hid.1
  noted duty' id hslot := by
    have hne : duty' ≠ duty := by
      rintro rfl
      rw [Slots.get_set] at hslot
      cases hslot
    rw [Slots.get_set_of_ne hne] at hslot
    obtain ⟨hown, hstray⟩ := h.noted duty' id hslot
    refine ⟨hown, fun hmem => ?_⟩
    rcases hmem with hmem | ⟨-, e, he, rfl, hevent⟩
    · exact hstray hmem
    · -- the tick of one duty is none of another
      exact hne (hwrap ((h.event duty' e he hslot).symm.trans hevent))
  event duty' e he hslot := by
    have hne : duty' ≠ duty := by
      rintro rfl
      rw [Slots.get_set] at hslot
      cases hslot
    rw [Slots.get_set_of_ne hne] at hslot
    exact h.event duty' e he hslot
  kept e he hown := by
    rcases h.kept e he hown with hstray | ⟨duty', hslot⟩
    · exact .inl (.inl hstray)
    · by_cases hne : duty' = duty
      · subst hne
        exact .inl (.inr ⟨hown, e, he, rfl, h.event duty' e he hslot⟩)
      · exact .inr ⟨duty', (Slots.get_set_of_ne hne).trans hslot⟩

/-- A duty that is scheduled is noted in its slot. -/
theorem schedule [Ranked ε] (h : Recalls wrap own strays slots q) {duty : Duty}
    (hslot : slots.get duty = none) (time : Instant) :
    Recalls wrap (own ∪ q.issued (q.scheduleAt time (wrap duty)).2) strays
      (slots.set duty (some q.nextId)) (q.scheduleAt time (wrap duty)).2 := by
  have hnext : (q.scheduleAt time (wrap duty)).2.nextId = q.nextId + 1 := rfl
  have hissued : ∀ id, id ∈ q.issued (q.scheduleAt time (wrap duty)).2 ↔ id = q.nextId := by
    refine fun id => ⟨fun h => Nat.le_antisymm (Nat.le_of_lt_succ h.2) h.1, ?_⟩
    rintro rfl
    exact ⟨Nat.le_refl _, Nat.lt_succ_self _⟩
  have hlive : ∀ e ∈ (q.scheduleAt time (wrap duty)).2.live,
      e = q.newEntry time (wrap duty) ∨ e ∈ q.live := fun e he =>
    List.mem_cons.1 ((h.wellFormed.live_scheduleAt time (wrap duty)).mem_iff.1 he)
  have hfresh : ∀ e ∈ q.live, e.id ≠ q.nextId := fun e he =>
    (h.wellFormed.fresh e (EventQueue.mem_live.1 he).1).ne
  have hself : ∀ {duty' id}, (slots.set duty (some q.nextId)).get duty' = some id →
      duty' = duty ∧ id = q.nextId ∨ slots.get duty' = some id := by
    intro duty' id hget
    by_cases hne : duty' = duty
    · subst hne
      rw [Slots.get_set] at hget
      exact .inl ⟨rfl, (Option.some.inj hget).symm⟩
    · exact .inr ((Slots.get_set_of_ne hne).symm.trans hget)
  refine ⟨h.wellFormed.scheduleAt time (wrap duty), fun id hid => ?_,
    h.subset.trans Set.subset_union_left, fun duty' id hget => ?_, fun duty' e he hget => ?_,
    fun e he hown => ?_⟩
  · rw [hnext]
    rcases hid with hid | hid
    · exact (h.issued id hid).trans (Nat.lt_succ_self _)
    · exact ((hissued id).1 hid).trans_lt (Nat.lt_succ_self _)
  · rcases hself hget with ⟨rfl, rfl⟩ | hget
    · refine ⟨.inr ((hissued _).2 rfl), fun hstray => ?_⟩
      exact (h.issued _ (h.subset hstray)).false
    · exact ⟨.inl (h.noted duty' id hget).1, (h.noted duty' id hget).2⟩
  · rcases hlive e he with rfl | he
    · rcases hself hget with ⟨rfl, -⟩ | hget
      · rfl
      · exact absurd (h.issued _ (h.noted duty' _ hget).1) (Nat.lt_irrefl _)
    · rcases hself hget with ⟨-, hid⟩ | hget
      · exact absurd hid (hfresh e he)
      · exact h.event duty' e he hget
  · rcases hlive e he with rfl | he
    · exact .inr ⟨duty, Slots.get_set _ _ _⟩
    · rcases hown with hown | hown
      · refine (h.kept e he hown).imp id fun ⟨duty', hget⟩ => ⟨duty', ?_⟩
        rw [Slots.get_set_of_ne, hget]
        rintro rfl
        rw [hslot] at hget
        cases hget
      · exact absurd ((hissued _).1 hown) (hfresh e he)

theorem schedule_again [Ranked ε] {q₀ : EventQueue ε}
    (h : Recalls wrap (own ∪ q₀.issued q) strays slots q) (hle : q₀.nextId ≤ q.nextId)
    {duty : Duty} (hslot : slots.get duty = none) (time : Instant) :
    Recalls wrap (own ∪ q₀.issued (q.scheduleAt time (wrap duty)).2) strays
      (slots.set duty (some q.nextId)) (q.scheduleAt time (wrap duty)).2 := by
  have hs := h.schedule hslot time
  rwa [Set.union_assoc, EventQueue.issued_union hle (Nat.le_succ _)] at hs

/-- An agent that starts notes its first duties. -/
theorem start [Ranked ε] (h : Recalls wrap own strays {} q) (a : Agent) (now : Instant) :
    Recalls wrap
      (own ∪ q.issued (q.scheduleAll ((Act.firstDuties a now).map fun x => (x.1, wrap x.2))))
      strays (Act.firstSlots a q.nextId)
      (q.scheduleAll ((Act.firstDuties a now).map fun x => (x.1, wrap x.2))) := by
  have hb := h.schedule (rfl : Slots.get {} .broadcast = none) now
  have hc := hb.schedule_again (Nat.le_succ _) (rfl : Slots.get _ .compute = none) now
  unfold Act.firstDuties Act.firstSlots
  cases a.settings.compromiseAt with
  | none => exact hc
  | some due =>
    cases a.role with
    | leader => exact hc
    | follower =>
      exact hc.schedule_again (Nat.le_add_right _ 2) (rfl : Slots.get _ .compromise = none)
        (now.max due)

end Recalls

/-! ## What the calls do to the slots -/

namespace Act

variable [Ranked ε] {wrap : Duty → ε} {s s' : Scene ε}

/-- A running agent that did a duty has forgotten about it first, and may have scheduled it again. -/
structure Redoes (wrap : Duty → ε) (duty : Duty) (s s' : Scene ε) : Prop where
  stage : s'.agent.stage = s.agent.stage
  ends : s'.agent.slots = s.agent.slots.set duty none ∧ s'.world.queue = s.world.queue ∨
    ∃ time, s'.agent.slots = (s.agent.slots.set duty none).set duty (some s.world.queue.nextId) ∧
      s'.world.queue = (s.world.queue.scheduleAt time (wrap duty)).2

theorem redoes_of_scheduleDuty {duty : Duty} {delay : Duration}
    (hstage : s'.agent.stage = s.agent.stage)
    (hslots : s'.agent.slots = s.agent.slots.set duty none)
    (hqueue : s'.world.queue = s.world.queue) :
    Returns False (fun _ s'' => Redoes wrap duty s s'') (scheduleDuty wrap delay duty s') := by
  have hslot : s'.agent.slots.get duty = none := by rw [hslots, Slots.get_set]
  refine (scheduleDuty_schedules hslot False.elim).mono ?_
  rintro - - ⟨-, time, -, rfl⟩
  refine ⟨hstage, .inr ⟨time, ?_, ?_⟩⟩
  · rw [scheduled, hslots, hqueue]
  · rw [scheduled, hqueue]

theorem handle_redoes (duty : Duty) (hrun : s.agent.stage = .running) :
    Returns False (fun _ s' => Redoes wrap duty s s') (handle wrap duty s) := by
  cases duty with
  | broadcast =>
    rw [handle_broadcast hrun, broadcast_eq]
    refine (sendFrom_returns (s := cleared s .broadcast) _ _ _ hrun).bind ?_ ?_
    · rintro - s' ⟨hk, hslots⟩
      rw [bind_apply, note_apply]
      exact redoes_of_scheduleDuty hk.stage hslots hk.queue
    · rintro - s' ⟨hk, hslots⟩
      exact ⟨hk.stage, .inl ⟨hslots, hk.queue⟩⟩
  | compute =>
    rw [handle_compute hrun]
    simp only [compute, bind_apply, clearSlot_apply, clock_apply, agent_apply, track_apply,
      setWorld_apply]
    cases (cleared s .compute).agent.settings.integrator.advance _ _ _ _ with
    | none => exact id
    | some step =>
      simp only [bind_apply, setAgent_apply, track_apply]
      cases (cleared s .compute).track.add step.waypoint with
      | error f => exact ⟨rfl, .inl ⟨rfl, rfl⟩⟩
      | ok track => exact redoes_of_scheduleDuty rfl rfl rfl
  | compromise =>
    rw [handle_compromise hrun]
    split
    · exact ⟨rfl, .inl ⟨rfl, rfl⟩⟩
    · exact ⟨rfl, .inl ⟨rfl, rfl⟩⟩

omit [Ranked ε] in
theorem receive_slots (sender : Address) (payload : List UInt8) :
    Returns False (fun _ s' => s'.agent.slots = s.agent.slots) (receive sender payload s) := by
  simp only [receive, bind_apply, agent_apply]
  split
  · exact rfl
  · split
    · exact rfl
    · cases Beacon.decode payload with
      | error f => exact rfl
      | ok beacon =>
        simp only [bind_apply, setAgent_apply]
        cases s.agent.received.increment sender with
        | error f => exact rfl
        | ok received =>
          simp only [ofExcept_ok]
          cases s.agent.table.update sender beacon with
          | error f => exact rfl
          | ok table => exact rfl

end Act

/-! ## Histories of an agent -/

/-- The pending ticks of a duty that an agent loses sight of when it is told to do the duty. -/
def Scene.displaced (s : Scene ε) (wrap : Duty → ε) (own : Set EventId) (duty : Duty) :
    Set EventId :=
  {id ∈ s.world.queue.ticksAmong own (wrap duty) | s.agent.stage = .running}

variable [Ranked ε]

/-- What an agent has been through since it was created, with the numbers that it scheduled
something under and those of them that went astray. Its calls come in any order, and `handle` is
told of any duty, whether or not it is due. -/
inductive Serves (wrap : Duty → ε) : Set EventId → Set EventId → Scene ε → Prop
  | created (id : Address) (role : Role) (settings : AgentSettings) (track : Track) {w : World ε}
      (wellFormed : w.queue.WellFormed) :
      Serves wrap ∅ ∅ ⟨Agent.create id role settings, track, w⟩
  /-- Others use the queue, events are taken out of it, or anything else happens to the world. -/
  | meanwhile {own strays : Set EventId} {s : Scene ε} {w : World ε} (track : Track)
      (h : Serves wrap own strays s) (evolves : s.world.queue.Evolves w.queue) :
      Serves wrap own strays ⟨s.agent, track, w⟩
  | starts {own strays : Set EventId} {s s' : Scene ε} {r : Except Failure Unit}
      (h : Serves wrap own strays s) (start : Act.start wrap s = returned r s') :
      Serves wrap (own ∪ s.world.queue.issued s'.world.queue) strays s'
  | hears {own strays : Set EventId} {s s' : Scene ε} {r : Except Failure Bool}
      (sender : Address) (payload : List UInt8) (h : Serves wrap own strays s)
      (receive : Act.receive sender payload s = returned r s') :
      Serves wrap (own ∪ s.world.queue.issued s'.world.queue) strays s'
  | does {own strays : Set EventId} {s s' : Scene ε} {r : Except Failure Unit} (duty : Duty)
      (h : Serves wrap own strays s) (handle : Act.handle wrap duty s = returned r s') :
      Serves wrap (own ∪ s.world.queue.issued s'.world.queue)
        (strays ∪ s.displaced wrap own duty) s'

namespace Serves

variable {wrap : Duty → ε} {own strays : Set EventId} {s s' : Scene ε}

/-- What holds of an agent and the queue all along. -/
structure Minds (wrap : Duty → ε) (own strays : Set EventId) (s : Scene ε) : Prop where
  recalls : Recalls wrap own strays s.agent.slots s.world.queue
  fresh : s.agent.stage = .uninitialized → s.agent.slots = {}

theorem Minds.starts {r : Except Failure Unit} (h : Minds wrap own strays s)
    (start : Act.start wrap s = returned r s') :
    Minds wrap (own ∪ s.world.queue.issued s'.world.queue) strays s' := by
  have hends : Returns False (Act.StartEnds wrap s) (Act.start wrap s) :=
    Act.start_returns h.fresh
  rw [start] at hends
  have hends := hends.of_returned
  cases r with
  | error f =>
    obtain ⟨rfl, -⟩ := hends
    rw [EventQueue.issued_self rfl, Set.union_empty]
    exact h
  | ok u =>
    have hends : Act.Starts wrap s s' := hends
    obtain ⟨network, bind⟩ : ∃ network, s.world.network.bind s.agent.id = .ok network :=
      ⟨_, hends.bind⟩
    rw [Act.start_eq hends.fresh (h.fresh hends.fresh) bind] at start
    cases start
    have hrecalls := h.recalls
    rw [h.fresh hends.fresh] at hrecalls
    exact ⟨hrecalls.start s.agent s.world.clock, nofun⟩

theorem Minds.hears {r : Except Failure Bool} {sender : Address} {payload : List UInt8}
    (h : Minds wrap own strays s) (receive : Act.receive sender payload s = returned r s') :
    Minds wrap (own ∪ s.world.queue.issued s'.world.queue) strays s' := by
  have hkeeps := @Act.receive_returns ε _ False s sender payload
  have hslots := @Act.receive_slots ε s sender payload
  rw [receive] at hkeeps hslots
  have hqueue : s'.world.queue = s.world.queue := hkeeps.of_returned.queue
  have hslots : s'.agent.slots = s.agent.slots := hslots.of_returned
  have hstage : s'.agent.stage = s.agent.stage := hkeeps.of_returned.stage
  refine ⟨?_, fun hfresh => hslots.trans (h.fresh (hstage.symm.trans hfresh))⟩
  rw [hqueue, hslots, EventQueue.issued_self rfl, Set.union_empty]
  exact h.recalls

theorem Minds.does {r : Except Failure Unit} (hwrap : Function.Injective wrap) {duty : Duty}
    (h : Minds wrap own strays s) (handle : Act.handle wrap duty s = returned r s') :
    Minds wrap (own ∪ s.world.queue.issued s'.world.queue)
      (strays ∪ s.displaced wrap own duty) s' := by
  by_cases hrun : s.agent.stage = .running
  · have hredoes := @Act.handle_redoes ε _ wrap s duty hrun
    rw [handle] at hredoes
    have hredoes : Act.Redoes wrap duty s s' := hredoes.of_returned
    have hdisplaced : s.displaced wrap own duty = s.world.queue.ticksAmong own (wrap duty) :=
      Set.sep_eq_self_iff_mem_true.2 fun _ _ => hrun
    have hforgets := h.recalls.forget hwrap duty
    rw [hdisplaced]
    refine ⟨?_, fun hfresh => ?_⟩
    · rcases hredoes.ends with ⟨hslots, hqueue⟩ | ⟨time, hslots, hqueue⟩ <;> rw [hslots, hqueue]
      · rw [EventQueue.issued_self rfl, Set.union_empty]
        exact hforgets
      · exact hforgets.schedule (Slots.get_set _ _ _) time
    · rw [hredoes.stage, hrun] at hfresh
      cases hfresh
  · rw [Act.handle_idle hrun] at handle
    have hnone : s.displaced wrap own duty = ∅ :=
      Set.eq_empty_iff_forall_notMem.2 fun _ hid => hrun hid.2
    have hsame : s.world.queue.issued s.world.queue = ∅ := EventQueue.issued_self rfl
    rw [hnone, Set.union_empty]
    cases r <;> cases handle
    change Minds wrap (own ∪ s.world.queue.issued s.world.queue) strays _
    rw [hsame, Set.union_empty]
    exact ⟨h.recalls, h.fresh⟩

/-- Whatever an agent has been through, its slots hold all that it has pending but the strays. -/
theorem minds (h : Serves wrap own strays s) (hwrap : Function.Injective wrap) :
    Minds wrap own strays s := by
  induction h with
  | created id role settings track wellFormed => exact ⟨.nothing wellFormed, fun _ => rfl⟩
  | meanwhile track h evolves ih => exact ⟨ih.recalls.meanwhile evolves, ih.fresh⟩
  | starts h start ih => exact ih.starts start
  | hears sender payload h receive ih => exact ih.hears receive
  | does duty h handle ih => exact ih.does hwrap handle

/-- As long as nothing went astray, a tick that is taken out of the queue was the only one of its
duty, so doing it displaces none. -/
theorem displaced_of_takes (h : Serves wrap own ∅ s) (hwrap : Function.Injective wrap) {duty : Duty}
    {e : Entry ε} {q : EventQueue ε} (takes : s.world.queue.Takes e q) (mine : e.id ∈ own)
    (event : e.event = wrap duty) : (s.withQueue q).displaced wrap own duty = ∅ := by
  have hrecalls := (h.minds hwrap).recalls
  have hslot : ∀ x ∈ s.world.queue.live, x.id ∈ own → x.event = wrap duty →
      s.agent.slots.get duty = some x.id := by
    intro x hx hown hevent
    obtain ⟨duty', hget⟩ := (hrecalls.kept x hx hown).resolve_left (Set.notMem_empty _)
    obtain rfl := hwrap ((hrecalls.event duty' x hx hget).symm.trans hevent)
    exact hget
  refine Set.eq_empty_iff_forall_notMem.2 ?_
  rintro id ⟨⟨hown, x, hx, rfl, hevent⟩, -⟩
  have hx' := takes.live.mem_iff.2 (List.mem_cons_of_mem e hx)
  have hsame := (hslot x hx' hown hevent).symm.trans (hslot e takes.mem mine event)
  exact takes.id_ne hrecalls.wellFormed hx (Option.some.inj hsame)

/-! ## Stopping -/

omit [Ranked ε] in
theorem isPending_stopped (id : EventId) : (Act.stopped s).world.queue.isPending id = true ↔
    id ∉ s.agent.slots.toList ∧ s.world.queue.isPending id = true := by
  have hqueue : (Act.stopped s).world.queue =
      s.agent.slots.toList.foldl (fun q id => (q.cancel id).2) s.world.queue := by
    show (World.close _ _).queue = _
    unfold World.close
    rw [Act.cancelAll_eq]
    split <;> rfl
  rw [hqueue, EventQueue.isPending_cancelAll]

/-- Of what an agent has pending, its slots miss just the strays. -/
theorem mem_slots_iff (h : Serves wrap own strays s) (hwrap : Function.Injective wrap)
    {id : EventId} (hown : id ∈ own) (hpending : s.world.queue.isPending id = true) :
    id ∉ s.agent.slots.toList ↔ id ∈ strays := by
  have hrecalls := (h.minds hwrap).recalls
  obtain ⟨e, he, rfl⟩ := List.mem_map.1 (hrecalls.wellFormed.mem_ids_iff.2 hpending)
  rw [Slots.mem_toList]
  refine ⟨fun hnot => (hrecalls.kept e he hown).resolve_right hnot, ?_⟩
  rintro hstray ⟨duty, hget⟩
  exact (hrecalls.noted duty _ hget).2 hstray

theorem isPending_of_not_mem (h : Serves wrap own strays s) (hwrap : Function.Injective wrap)
    {id : EventId} (hother : id ∉ own) :
    (Act.stopped s).world.queue.isPending id = s.world.queue.isPending id := by
  have hnot : id ∉ s.agent.slots.toList := fun hmem => by
    obtain ⟨duty, hget⟩ := Slots.mem_toList.1 hmem
    exact hother ((h.minds hwrap).recalls.noted duty id hget).1
  rw [Bool.eq_iff_iff, isPending_stopped, and_iff_right hnot]

/-- A running agent that stops calls off all that it has pending but the strays, leaves alone what
others scheduled and gives up its endpoint. So nothing of its own is left exactly if no stray
is still pending. -/
theorem stop_calls_off (h : Serves wrap own strays s) (hwrap : Function.Injective wrap)
    (hrun : s.agent.stage = .running) :
    ∃ s', Act.stop s = .ok () s' ∧ s'.agent.stage = .stopped ∧
      (∀ id ∈ own, s'.world.queue.isPending id = true ↔
        s.world.queue.isPending id = true ∧ id ∈ strays) ∧
      (∀ id, id ∉ own → s'.world.queue.isPending id = s.world.queue.isPending id) ∧
      (∀ a, s'.world.network.isBound a = true ↔
        a ≠ s.agent.id ∧ s.world.network.isBound a = true) ∧
      ((∀ id ∈ own, s'.world.queue.isPending id = false) ↔
        ∀ id ∈ strays, s.world.queue.isPending id = false) := by
  have hown : ∀ id ∈ own, (Act.stopped s).world.queue.isPending id = true ↔
      s.world.queue.isPending id = true ∧ id ∈ strays := by
    intro id hid
    rw [isPending_stopped, and_comm, and_congr_right_iff]
    exact h.mem_slots_iff hwrap hid
  refine ⟨Act.stopped s, Act.stop_eq hrun, rfl, hown, fun id => h.isPending_of_not_mem hwrap,
    Act.isBound_stopped, fun hnone id hstray => ?_, fun hnone id hid => ?_⟩
  · have hid := (h.minds hwrap).recalls.subset hstray
    by_contra hpending
    have hleft := (hown id hid).2 ⟨by simpa using hpending, hstray⟩
    rw [hnone id hid] at hleft
    cases hleft
  · by_contra hpending
    obtain ⟨hleft, hstray⟩ := (hown id hid).1 (by simpa using hpending)
    rw [hnone id hstray] at hleft
    cases hleft

end Serves

/-! ## An agent that has the queue to itself -/

namespace Lone

/-- A follower in a world in which nothing is to happen. -/
def fresh : Scene Duty where
  agent := Agent.create (.ofOctets 10 1 1 1) .follower .usual
  track := .restingAt Vec3.zero
  world := .ofLink .usual (.recorder {}) (Journal.ofThreshold none)

/-- The follower right after its start. -/
def started (network : Network) : Scene Duty := Act.begun fresh id network

theorem serves_started {network : Network}
    (bind : fresh.world.network.bind fresh.agent.id = .ok network) :
    Serves id (∅ ∪ fresh.world.queue.issued (started network).world.queue) ∅ (started network) :=
  (Serves.created _ _ _ _ EventQueue.wellFormed_empty).starts (r := .ok ())
    (Act.start_eq rfl rfl bind)

theorem exists_network : ∃ network, fresh.world.network.bind fresh.agent.id = .ok network :=
  Network.exists_bind_of_empty rfl (by decide)

/-- The first thing to happen after the start of an agent is its broadcast, and then comes its
step. -/
theorem exists_pop_begun {s : Scene Duty} (hqueue : s.world.queue = EventQueue.empty)
    (hnever : s.agent.settings.compromiseAt = none) (network : Network) : ∃ q,
    (Act.begun s id network).world.queue.Takes ⟨.zero, 1, 0, Duty.broadcast⟩ q ∧
      q.live.Perm [⟨.zero, 1, 1, Duty.compute⟩] := by
  have hfirst : (Act.begun s id network).world.queue =
      EventQueue.empty.scheduleAll [(.zero, .broadcast), (.zero, .compute)] := by
    simp only [Act.begun, Act.firstDuties, hnever, World.clock, hqueue]
    rfl
  have hwf : (Act.begun s id network).world.queue.WellFormed :=
    hfirst ▸ EventQueue.wellFormed_empty.scheduleAll
  have hlive : (Act.begun s id network).world.queue.live.Perm (EventQueue.empty.newEntries
      [(.zero, .broadcast), (.zero, .compute)]) :=
    hfirst ▸ EventQueue.wellFormed_empty.live_scheduleAll
  have hstop : (Act.begun s id network).world.queue.stopTime = none := by rw [hfirst]; rfl
  obtain ⟨q, -, takes, hrest⟩ := hwf.exists_pop hstop hlive (by decide)
  exact ⟨q, takes, hrest⟩

/-- The follower after a broadcast at the start of time. -/
theorem exists_announced {s : Scene Duty} (hrun : s.agent.stage = .running)
    (hid : s.agent.id = .ofOctets 10 1 1 1) (hsettings : s.agent.settings = .usual)
    (hsent : s.agent.sent = Tally.empty) (hclock : s.world.clock = .zero) :
    ∃ sent next, Act.handle id .broadcast s = .ok () (Act.announced s id sent next) := by
  obtain ⟨sent, counts⟩ : ∃ sent, s.agent.sent.incrementAll s.agent.audience = .ok sent := by
    rw [Agent.audience, hid, hsettings, hsent]
    exact ⟨_, rfl⟩
  have hroom : s.world.clock.nanos + s.agent.settings.packetInterval.nanos < durationLimit := by
    rw [hclock, hsettings]
    decide
  obtain ⟨r, s', heq, rfl, next, -, rfl⟩ := (@Act.broadcast_announces Duty _ id True s sent counts
    fun _ => hroom).exists_returned trivial
  exact ⟨sent, next, (Act.handle_broadcast hrun).trans heq⟩

/-- If it makes its first broadcast when that is taken out of the queue and then stops, nothing is
left. -/
theorem stop_calls_off_due : ∃ own strays s s', Serves id own strays s ∧
    s.agent.stage = .running ∧ (∃ id ∈ own, s.world.queue.isPending id = true) ∧
    Act.stop s = .ok () s' ∧ ∀ id ∈ own, s'.world.queue.isPending id = false := by
  obtain ⟨network, bind⟩ := exists_network
  obtain ⟨q, takes, -⟩ := exists_pop_begun (s := fresh) rfl rfl network
  obtain ⟨sent, next, hdone⟩ := exists_announced (s := (started network).withQueue q) rfl rfl rfl
    rfl takes.clock
  have hserves := serves_started bind
  have hnone := hserves.displaced_of_takes Function.injective_id takes
    (.inr ⟨Nat.le_refl _, Nat.two_pos⟩) rfl
  have hserves := (hserves.meanwhile (w := ((started network).withQueue q).world)
    (started network).track takes.evolves).does (r := .ok ()) .broadcast hdone
  obtain ⟨s', hstop, -, -, -, -, hleft⟩ := hserves.stop_calls_off Function.injective_id rfl
  refine ⟨_, _, _, s', hserves, rfl, ⟨q.nextId, ?_, ?_⟩, hstop, hleft.2 ?_⟩
  · exact .inr ⟨Nat.le_refl _, Nat.lt_succ_self _⟩
  · show (q.scheduleAt next Duty.broadcast).2.isPending q.nextId = true
    simp [EventQueue.isPending_scheduleAt]
  · rintro k (hk | hk)
    · exact hk.elim
    · exact absurd hk (Set.eq_empty_iff_forall_notMem.1 hnone k)

/-- If it is told to broadcast before its first broadcast is due, that one is left after its
stop. -/
theorem stop_leaves_stray : ∃ own strays s s', Serves id own strays s ∧
    s.agent.stage = .running ∧ Act.stop s = .ok () s' ∧
    ∃ id ∈ own, s'.world.queue.isPending id = true := by
  obtain ⟨network, bind⟩ := exists_network
  obtain ⟨sent, next, hdone⟩ := exists_announced (s := started network) rfl rfl rfl rfl rfl
  have hserves := (serves_started bind).does (r := .ok ()) .broadcast hdone
  let s := Act.announced (started network) id sent next
  refine ⟨_, _, s, Act.stopped s, hserves, rfl, Act.stop_eq rfl, 0,
    .inl (.inr ⟨Nat.le_refl _, Nat.two_pos⟩), ?_⟩
  -- the slots hold the numbers of the first step and of the second broadcast
  have hslots : s.agent.slots.toList = [2, 1] := rfl
  have hqueue : s.world.queue = (((EventQueue.empty.scheduleAt _ Duty.broadcast).2.scheduleAt
      _ Duty.compute).2.scheduleAt next .broadcast).2 := rfl
  have hpending : s.world.queue.isPending 0 = true := by
    rw [hqueue]
    simp only [EventQueue.isPending_scheduleAt]
    rfl
  exact (Serves.isPending_stopped 0).2 ⟨by rw [hslots]; decide, hpending⟩

end Lone

end SwarmFlight
