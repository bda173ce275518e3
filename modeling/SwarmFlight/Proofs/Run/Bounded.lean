import SwarmFlight.Proofs.Run.Accounts

/-!
# No run is cut short

`Run.toEnd` steps to the end of a run and breaks off after `Run.bound` events. With runnable
settings it never comes to that (`toEnd_returned`) : nothing but an arrival is ever pending twice
(`Underway.length_numbers_le_one`), so all that is still to come costs less than the bound
(`Underway.measure_lt_bound`). In the same way a run that is driven step by step dispatches fewer
events than its bound (`Built.length_lt_bound`).
-/

namespace SwarmFlight

/-- All events of a run of `n` agents but arrivals. -/
def ownEvents (n : Nat) : List Event :=
  .sample :: (List.range n).flatMap fun i =>
    [.start i, .duty i .broadcast, .duty i .compute, .duty i .compromise]

theorem mem_ownEvents {event : Event} {n : Nat} (hown : event.isArrival = false)
    (h : ∀ i, event.index? = some i → i < n) : event ∈ ownEvents n := by
  cases event with
  | start i => simpa [ownEvents] using h i rfl
  | duty i duty =>
    have hi : i < n := h i rfl
    cases duty <;> simpa [ownEvents] using hi
  | arrival d => cases hown
  | sample => exact List.mem_cons_self

namespace Simulation

open Run

variable {first sim sim' : Simulation} {log : List Occurrence} {m n : Nat} {event : Event}
  {e : Entry Event}

/-! ## What is pending -/

/-- What is pending but arrivals. -/
def ownPending (sim : Simulation) : List (Entry Event) :=
  sim.world.queue.awaited fun event => !event.isArrival

theorem mem_ownPending :
    e ∈ sim.ownPending ↔ e ∈ sim.world.queue.live ∧ e.event.isArrival = false := by
  rw [ownPending, EventQueue.mem_awaited, Bool.not_eq_true']

/-- Nothing is pending for an agent that there is not. -/
theorem Underway.numbers_eq_nil (hu : sim.Underway) {i : Nat} (hi : event.index? = some i)
    (hnone : sim.crafts[i]? = none) : sim.world.queue.numbers event = [] := by
  refine List.eq_nil_iff_forall_not_mem.2 fun id hid => ?_
  obtain ⟨e, he, rfl, -⟩ := EventQueue.mem_numbers.1 hid
  obtain ⟨c, hc⟩ := hu.exists_craft he hi
  cases hnone.symm.trans hc

/-- Nothing but arrivals is pending twice. -/
theorem Underway.length_numbers_le_one (hu : sim.Underway) (hown : event.isArrival = false) :
    (sim.world.queue.numbers event).length ≤ 1 := by
  cases event with
  | arrival d => cases hown
  | sample =>
    obtain ⟨id, hid⟩ := hu.sample
    rw [hid]
    exact Nat.le_refl 1
  | start i =>
    cases hc : sim.crafts[i]? with
    | none =>
      rw [hu.numbers_eq_nil rfl hc]
      exact Nat.zero_le 1
    | some c =>
      cases (hu.stationed i c hc).stands with
      | waits _ _ _ _ starts => exact starts
      | runs _ _ starts =>
        rw [starts]
        exact Nat.zero_le 1
  | duty i duty =>
    cases hc : sim.crafts[i]? with
    | none =>
      rw [hu.numbers_eq_nil rfl hc]
      exact Nat.zero_le 1
    | some c =>
      rw [(hu.stationed i c hc).books duty]
      exact Option.length_toList_le

theorem Underway.nodup_own (hu : sim.Underway) : (sim.ownPending.map Entry.event).Nodup := by
  refine List.nodup_iff_count_le_one.2 fun event => ?_
  by_cases hmem : event ∈ sim.ownPending.map Entry.event
  · obtain ⟨e, he, rfl⟩ := List.mem_map.1 hmem
    refine le_trans ?_ (hu.length_numbers_le_one (mem_ownPending.1 he).2)
    rw [List.count, List.countP_map, EventQueue.numbers, List.length_map, EventQueue.awaited,
      ← List.countP_eq_length_filter]
    exact List.filter_sublist.countP_le
  · rw [List.count_eq_zero_of_not_mem hmem]
    exact Nat.zero_le 1

theorem Underway.own_subset (hu : sim.Underway) :
    sim.ownPending.map Entry.event ⊆ ownEvents sim.crafts.length := by
  intro event hevent
  obtain ⟨e, he, rfl⟩ := List.mem_map.1 hevent
  obtain ⟨hlive, hown⟩ := mem_ownPending.1 he
  exact mem_ownEvents hown (hu.within e hlive)

/-! ## What it costs -/

theorem sum_weight_ownEvents (m stop n : Nat) :
    ((ownEvents n).map (weight m stop 0)).sum =
      (1 + stop) + n * (2 * ((1 + stop) * (m + 1)) + 2 * (1 + stop) + 3) := by
  induction n with
  | zero => simp [ownEvents, weight]
  | succ n ih =>
    rw [ownEvents, List.map_cons, List.sum_cons] at ih ⊢
    rw [List.range_succ, List.flatMap_append, List.map_append, List.sum_append, ← Nat.add_assoc, ih]
    simp [weight]
    ring

theorem sum_map_le_of_subset {α : Type} {l l' : List α} (h : l.Nodup) (hsub : l ⊆ l')
    (f : α → Nat) : (l.map f).sum ≤ (l'.map f).sum := by
  obtain ⟨same, hperm, hsublist⟩ := List.subperm_of_subset h hsub
  rw [← (hperm.map f).sum_eq]
  exact (hsublist.map f).sum_le_sum fun _ _ => Nat.zero_le _

/-- What is pending but arrivals costs at most what all of it would cost at the start of time. -/
theorem Underway.cost_own_le (hu : sim.Underway) (m stop : Nat) :
    cost m stop (sim.ownPending.map fun e => (e.due, e.event)) ≤
      (1 + stop) + sim.crafts.length * (2 * ((1 + stop) * (m + 1)) + 2 * (1 + stop) + 3) := by
  rw [cost, List.map_map, ← sum_weight_ownEvents]
  calc (sim.ownPending.map fun e => weight m stop e.due.nanos e.event).sum
    _ ≤ (sim.ownPending.map fun e => weight m stop 0 e.event).sum :=
      List.sum_le_sum fun e _ => weight_anti (Nat.zero_le _) e.event
    _ = ((sim.ownPending.map Entry.event).map (weight m stop 0)).sum := by
      rw [List.map_map]
      rfl
    _ ≤ ((ownEvents sim.crafts.length).map (weight m stop 0)).sum :=
      sum_map_le_of_subset hu.nodup_own hu.own_subset _

/-- An arrival costs one event. -/
theorem cost_of_isArrival {stop : Nat} {l : List (Entry Event)} (h : ∀ e ∈ l, e.event.isArrival) :
    cost m stop (l.map fun e => (e.due, e.event)) = l.length := by
  have hone : l.map (fun e => weight m stop e.due.nanos e.event) = l.map fun _ => 1 := by
    refine List.map_congr_left fun e he => ?_
    obtain ⟨d, hd⟩ := Event.exists_of_isArrival (h e he)
    rw [hd]
    rfl
  rw [cost, List.map_map]
  exact (congrArg List.sum hone).trans (by simp)

theorem cost_live (m stop : Nat) (sim : Simulation) :
    cost m stop (sim.world.queue.live.map fun e => (e.due, e.event)) =
      sim.inTransit + cost m stop (sim.ownPending.map fun e => (e.due, e.event)) := by
  have hsplit : (sim.world.queue.awaited Event.isArrival ++ sim.ownPending).Perm
      sim.world.queue.live := List.filter_append_perm _ _
  have harrivals : ∀ e ∈ sim.world.queue.awaited Event.isArrival, e.event.isArrival :=
    fun e he => (EventQueue.mem_awaited.1 he).2
  rw [← cost_perm hsplit, List.map_append, cost_append, cost_of_isArrival harrivals, inTransit]

/-- What is pending and in the network costs less than the bound. -/
theorem Underway.measure_lt_bound (hu : sim.Underway) :
    measure sim.crafts.length sim < bound sim := by
  have hown := hu.cost_own_le sim.crafts.length sim.stopTime.nanos
  have harrivals : sim.inTransit ≤ sim.world.queue.size :=
    hu.sound.queue.size_eq ▸ List.length_filter_le _ _
  rw [measure, bound, cost_live]
  generalize sim.crafts.length = n at hown ⊢
  generalize sim.stopTime.nanos = t at hown ⊢
  -- the last summand is what the bound leaves over
  have hroom : 3 * (n + 1) * (n + 1) * (t + 2) =
      (1 + t) + n * (2 * ((1 + t) * (n + 1)) + 2 * (1 + t) + 3) +
        ((1 + t) * (n * n + 2 * n + 2) + 3 * n * n + 3 * n + 3) := by ring
  omega

/-! ## What a run dispatches -/

/-- No broadcast is sent to more agents than there are. -/
theorem Underway.paced (hu : sim.Underway) (hp : sim.Paced m) :
    sim.Paced sim.crafts.length := by
  refine ⟨hp.room, fun c hc => ?_, hp.sample⟩
  obtain ⟨hpacket, hcalculate, -⟩ := hp.duties c hc
  refine ⟨hpacket, hcalculate, ?_⟩
  rw [← (hu.fleet.told c hc).2]
  exact Nat.min_le_left _ _

/-- What has been dispatched and what is still to come cost no more than a run does at first. -/
theorem Reaches.length_add_measure_le (h : first.Reaches log sim) (hs : first.Sound)
    (hp : first.Paced m) : log.length ≤ measure m first ∧
      (sim.finished = false → log.length + measure m sim ≤ measure m first) := by
  induction h with
  | first => exact ⟨Nat.zero_le _, fun _ => (Nat.zero_add _).le⟩
  | @refuse log sim a _ ih =>
    obtain ⟨refused, heq⟩ := sim.refuse_eq a
    rw [heq]
    exact ih
  | @step log sim sim' r h step ih =>
    obtain ⟨e, hsteps⟩ := (h.sound hs).steps_of_returned step
    cases e with
    | none =>
      rw [hsteps.occurrences_none, List.append_nil]
      cases hsteps with
      | still => exact ih
      | ended _ _ _ _ ends => exact ⟨ih.1, fun hf => nomatch hf.symm.trans ends.finished⟩
    | some e =>
      have hf := (hsteps.goes (h.sound hs)).1
      have hless := measure_lt (h.sound hs) (h.paced hs hp hf) hsteps
      have hle := ih.2 hf
      rw [hsteps.occurrences_some, List.length_append, List.length_singleton]
      omega

/-- A run of runnable settings never dispatches as many events as its bound, whatever addresses are
refused and whatever fails on the way. -/
theorem Built.length_lt_bound {s : Settings} (hb : first.Built s) (hr : s.Runnable)
    (h : first.Reaches log sim) : log.length < bound first := by
  obtain ⟨_, hp⟩ := hb.paced hr
  have hle := (h.length_add_measure_le hb.sound (hb.underway.paced hp)).1
  exact hle.trans_lt hb.underway.measure_lt_bound

/-! ## Running to the end -/

theorem steps_succ (n : Nat) (sim : Simulation) : Run.steps (n + 1) sim =
    match Run.step sim with
    | .ok true sim' => Run.steps n sim'
    | .ok false sim' => .ok () sim'
    | .error h sim' => .error h sim' := by
  rw [Run.steps, Act.bind_apply]
  cases Run.step sim with
  | ok more sim' => cases more <;> rfl
  | error h sim' => rfl

/-- A run with something told. -/
def noted (sim : Simulation) (n : Notice) : Simulation := { sim with world := sim.world.note n }

theorem Underway.noted (hu : sim.Underway) (n : Notice) : (sim.noted n).Underway :=
  ⟨hu.unfinished, ⟨hu.sound.queue, hu.sound.ranked, hu.sound.stop, hu.sound.dormant,
    hu.sound.owned⟩, hu.fleet.of_roster rfl rfl,
    fun i c hc => (hu.stationed i c hc).frame (fun _ _ => .refl _) rfl, hu.empty, hu.within,
    hu.sample, hu.behind, hu.knows, fun x hx d hd => (hu.posted x hx d hd).of_roster rfl,
    hu.planned⟩

theorem Paced.noted (hp : sim.Paced m) (n : Notice) : (sim.noted n).Paced m :=
  ⟨⟨hp.room.duties, hp.room.sample, hp.room.latency⟩, hp.duties, hp.sample⟩

/-- What comes of running on : the run is over, or an agent cannot start as its address is
refused. -/
structure Concludes {α : Type} (sim : Simulation) (r : Except Failure α) (last : Simulation) :
    Prop where
  ended : r.toBool → last.finished = true
  barred : ∀ f, r = .error f →
    ∃ a ∈ sim.ids, sim.world.network.refused.contains a ∧ f = .bindFailed a

/-- As many events as there can be are enough. -/
theorem Underway.steps_returned (hu : sim.Underway) (hp : sim.Paced m)
    (hlt : measure m sim < n) :
    ∃ r last, Run.steps n sim = returned r last ∧ sim.Concludes r last := by
  induction n generalizing sim with
  | zero => exact absurd hlt (Nat.not_lt_zero _)
  | succ n ih =>
    obtain ⟨r, sim', e, hstep, hsteps⟩ := hu.sound.step hp.room
    rw [steps_succ, hstep]
    rcases hu.step hstep with ⟨e', hm, hu'⟩ | ⟨rfl, hc⟩
    · have hids := ids_eq_of_roster hm.roster_eq
      have hrefused := hm.refused_eq
      cases hm with
      | refused _ _ _ _ craft refused =>
        refine ⟨.error _, _, rfl, nofun, fun f hf => ⟨_, Fleet.mem_ids craft, refused, ?_⟩⟩
        exact (Except.error.inj hf).symm
      | went =>
        cases e with
        | none => cases hsteps
        | some e =>
          have hless := measure_lt hu.sound hp hsteps
          obtain ⟨r, last, hlast, hended, hbarred⟩ := ih hu' (hsteps.paced hp) (by omega)
          rw [hids, hrefused] at hbarred
          exact ⟨r, last, hlast, hended, hbarred⟩
    · exact ⟨.ok (), sim', rfl, fun _ => hc.finished, nofun⟩

theorem bound_pos (sim : Simulation) : 0 < bound sim := by
  unfold bound
  positivity

theorem toEnd_eq (sim : Simulation) : Run.toEnd sim =
    match Run.steps (bound sim)
      (sim.noted (.runStarted sim.crafts.length sim.settings.duration sim.settings.seed)) with
    | .ok _ last => .ok last.summary (last.noted (.runFinished last.summary.dispatched
        last.summary.stats.sent last.summary.stats.delivered last.summary.stats.lost))
    | .error h last => .error h last := by
  simp only [Run.toEnd, Act.bind_apply, Act.get_apply, Run.setWorld, Act.modify_apply, noted]
  generalize Run.steps (bound sim) _ = result
  cases result <;> rfl

/-- From any state of a run there is enough room to step to its end. -/
theorem Reaches.steps_returned {s : Settings} (h : first.Reaches log sim) (hb : first.Built s)
    (hr : s.Runnable) (told : Notice) : ∃ r last,
      Run.steps (bound sim) (sim.noted told) = returned r last ∧ sim.Concludes r last := by
  cases hf : sim.finished with
  | true =>
    obtain ⟨n, hn⟩ := Nat.exists_eq_succ_of_ne_zero sim.bound_pos.ne'
    refine ⟨.ok (), sim.noted told, ?_, fun _ => hf, nofun⟩
    rw [hn, steps_succ, step_of_finished (by exact hf)]
    rfl
  | false =>
    obtain ⟨_, hp⟩ := hb.paced hr
    have hu := h.underway hb.underway hf
    have hp := (hu.paced (h.paced hb.sound hp hf)).noted told
    obtain ⟨r, last, hsteps, hended, hbarred⟩ :=
      (hu.noted told).steps_returned hp hu.measure_lt_bound
    exact ⟨r, last, hsteps, hended, hbarred⟩

/-- Running to the end from any state of a run of runnable settings is never cut short. It ends with
the summary of a run that is over, or an agent cannot start as its address is refused. -/
theorem toEnd_returned {s : Settings} (hb : first.Built s) (hr : s.Runnable)
    (h : first.Reaches log sim) : ∃ r last, Run.toEnd sim = returned r last ∧
      sim.Concludes r last ∧ ∀ summary, r = .ok summary → summary = last.summary := by
  obtain ⟨r, last, hsteps, hended, hbarred⟩ := h.steps_returned hb hr
    (.runStarted sim.crafts.length sim.settings.duration sim.settings.seed)
  rw [toEnd_eq, hsteps]
  cases r with
  | ok =>
    refine ⟨.ok last.summary, _, rfl, ⟨fun _ => hended rfl, nofun⟩, fun summary h => ?_⟩
    exact (Except.ok.inj h).symm
  | error f =>
    refine ⟨.error f, last, rfl, ⟨nofun, fun f' h => hbarred f' ?_⟩, nofun⟩
    rw [Except.error.inj h]

end Simulation

end SwarmFlight
