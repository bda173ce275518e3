import SwarmFlight.Proofs.Run.History
import SwarmFlight.Proofs.Run.Pending
import SwarmFlight.Proofs.Run.Termination

/-!
# When a follower turns

A follower that is to be compromised is unstarted at first. Once it has started it is armed :
its compromise is pending, and whatever it does before that, it does as a follower. The
compromise goes first among the events of its instant, so all that the follower does at that
instant it does as a leader. If the run ends before, the compromise is missed.

`Phase` is this, with what was dispatched until then, and every step leads from a phase to a
phase (`Phase.step`).
-/

namespace SwarmFlight

/-- The role at some time of a follower that turns at `due`. -/
def roleAt (due now : Instant) : Role := if now < due then .follower else .leader

/-- If it is about the agent of an index, it took place when and as it should : the compromise at
`due` and everything else in the role of that time. -/
structure Occurrence.OnTime (index : Nat) (due : Instant) (o : Occurrence) : Prop where
  turn : o.event = .duty index .compromise → o.time = due
  tick : ∀ duty, duty ≠ .compromise → o.event = .duty index duty → o.role = some (roleAt due o.time)

/-- How often the compromise of the agent of an index was dispatched. -/
def turnsIn (index : Nat) (log : List Occurrence) : Nat :=
  log.countP (·.event = .duty index .compromise)

namespace Simulation

variable {sim sim' : Simulation} {index : Nat} {time due : Instant} {log : List Occurrence}

/-- The agent of an index, with the part `p`, has not started, whether or not it still may. It is to
be compromised at `time`, and that is at `due` if it starts as planned. -/
structure Unstarted (index : Nat) (time due : Instant) (p : Part) (log : List Occurrence)
    (sim : Simulation) : Prop where
  part : sim.parts[index]? = some p
  fresh : p.stage = .uninitialized
  role : p.role = .follower
  plain : p.compromised = false
  planned : p.settings.compromiseAt = some time
  starts : ∀ t ∈ sim.dues (.start index), t.max time = due
  idle : ∀ duty, sim.dues (.duty index duty) = []
  quiet : ∀ o ∈ log, ∀ duty, o.event ≠ .duty index duty
  failed : ∀ o ∈ log, o.event = .start index → o.succeeded = false

/-- It has started, and its compromise is pending. -/
structure Armed (index : Nat) (due : Instant) (p : Part) (log : List Occurrence)
    (sim : Simulation) : Prop where
  part : sim.parts[index]? = some p
  running : p.stage = .running
  role : p.role = .follower
  plain : p.compromised = false
  pending : sim.dues (.duty index .compromise) = [due]
  unfinished : sim.finished = false
  onTime : ∀ o ∈ log, o.OnTime index due
  never : turnsIn index log = 0

/-- It has turned. -/
structure Turned (index : Nat) (due : Instant) (p : Part) (log : List Occurrence)
    (sim : Simulation) : Prop where
  part : sim.parts[index]? = some p
  awake : p.stage ≠ .uninitialized
  role : p.role = .leader
  pending : sim.dues (.duty index .compromise) = []
  passed : due ≤ sim.world.clock
  early : due < sim.stopTime
  onTime : ∀ o ∈ log, o.OnTime index due
  once : turnsIn index log = 1

/-- The run ended before it turned. -/
structure Missed (index : Nat) (due : Instant) (p : Part) (log : List Occurrence)
    (sim : Simulation) : Prop where
  part : sim.parts[index]? = some p
  role : p.role = .follower
  finished : sim.finished = true
  late : sim.stopTime ≤ due
  onTime : ∀ o ∈ log, o.OnTime index due
  never : turnsIn index log = 0

/-- How far an agent has got that is to be compromised. -/
inductive Phase (index : Nat) (time due : Instant) (log : List Occurrence) (sim : Simulation) : Prop
  | unstarted {p : Part} (h : Unstarted index time due p log sim)
  | armed {p : Part} (h : Armed index due p log sim)
  | turned {p : Part} (h : Turned index due p log sim)
  | missed {p : Part} (h : Missed index due p log sim)

/-! ## One step -/

theorem roleFor_duty {p : Part} (hp : sim.parts[index]? = some p) (duty : Duty) :
    sim.roleFor (.duty index duty) = some p.role := by
  obtain ⟨c, hc, rfl⟩ := exists_craft_of_part hp
  rw [roleFor, hc]
  rfl

theorem turnsIn_append (index : Nat) (log log' : List Occurrence) :
    turnsIn index (log ++ log') = turnsIn index log + turnsIn index log' := List.countP_append

theorem turnsIn_singleton_of_ne {o : Occurrence} (h : o.event ≠ .duty index .compromise) :
    turnsIn index [o] = 0 := by
  simp [turnsIn, h]

theorem turnsIn_singleton {o : Occurrence} (h : o.event = .duty index .compromise) :
    turnsIn index [o] = 1 := by
  simp [turnsIn, h]

theorem turnsIn_eq_zero (h : ∀ o ∈ log, o.event ≠ .duty index .compromise) :
    turnsIn index log = 0 := by
  rw [turnsIn, List.countP_eq_zero]
  exact fun o ho => by simpa using h o ho

theorem onTime_of_quiet (h : ∀ o ∈ log, ∀ duty, o.event ≠ .duty index duty) :
    ∀ o ∈ log, o.OnTime index due :=
  fun o ho => ⟨fun he => absurd he (h o ho _), fun duty _ he => absurd he (h o ho duty)⟩

theorem forall_mem_snoc {P : Occurrence → Prop} {o : Occurrence} (h : ∀ x ∈ log, P x) (ho : P o) :
    ∀ x ∈ log ++ [o], P x := by
  intro x hx
  rcases List.mem_append.1 hx with hx | hx
  · exact h x hx
  · rw [List.mem_singleton.1 hx]
    exact ho

variable {p : Part} {r : Except Failure Bool} {e : Entry Event}

theorem Unstarted.step (hs : sim.Sound) (h : sim.Steps r (some e) sim')
    (hu : Unstarted index time due p log sim) :
    Phase index time due (log ++ [sim.occurrence e r]) sim' := by
  obtain ⟨q, takes, touches⟩ := h.touches index
  have hmem : e.due ∈ sim.dues e.event := EventQueue.mem_dues.2 ⟨e, takes.mem, rfl, rfl⟩
  have hne : ∀ duty, e.event ≠ .duty index duty := by
    intro duty he
    rw [he, hu.idle] at hmem
    cases hmem
  have hidle : ∀ duty, (sim.withQueue q).dues (.duty index duty) = [] := by
    intro duty
    have hleft := takes.dues_of_ne (hne duty)
    rw [show sim.world.queue.dues _ = [] from hu.idle duty] at hleft
    exact hleft.nil_eq.symm
  have hquiet := forall_mem_snoc (o := sim.occurrence e r) hu.quiet hne
  cases touches with
  | spared part start _ starts duties =>
    refine .unstarted ⟨part.trans hu.part, hu.fresh, hu.role, hu.plain, hu.planned,
      fun t ht => ?_, fun duty => ?_, hquiet, forall_mem_snoc hu.failed start⟩
    · obtain ⟨x, hx, hx', rfl⟩ := EventQueue.mem_dues.1 (starts.mem_iff.1 ht)
      have hx := takes.live.mem_iff.2 (List.mem_cons_of_mem _ hx)
      exact hu.starts _ (EventQueue.mem_dues.2 ⟨x, hx, hx', rfl⟩)
    · have hsame := duties duty fun he => absurd he (hne duty)
      rwa [hidle, List.perm_nil] at hsame
  | @starts p' event before _ part dues =>
    cases (show sim.parts[index]? = some p' from before).symm.trans hu.part
    have hdue := hu.starts _ (event ▸ hmem)
    have hpending := dues time hu.role hu.planned
    rw [hidle, show (sim.withQueue q).world.clock = e.due from takes.clock, hdue,
      List.perm_singleton] at hpending
    exact .armed ⟨part, rfl, hu.role, hu.plain, hpending, (h.goes hs).2.1, onTime_of_quiet hquiet,
      turnsIn_eq_zero fun o ho => hquiet o ho .compromise⟩
  | turns event => exact absurd event (hne _)

theorem Armed.exists_entry (ha : Armed index due p log sim) : ∃ c ∈ sim.world.queue.live,
    c.event = .duty index .compromise ∧ c.due = due := by
  have hmem : due ∈ sim.dues (.duty index .compromise) := by
    rw [ha.pending]
    exact List.mem_singleton_self due
  exact EventQueue.mem_dues.1 hmem

/-- Of two events of one instant the compromise of an armed agent comes first. -/
theorem Armed.due_lt (ha : Armed index due p log sim) (hs : sim.Sound)
    (hfirst : ∀ x ∈ sim.world.queue.live, e.before x) (he : e ∈ sim.world.queue.live) {duty : Duty}
    (hduty : duty ≠ .compromise) (hevent : e.event = .duty index duty) : e.due < due := by
  obtain ⟨c, hc, hturn, hdue⟩ := ha.exists_entry
  have hbefore := Entry.before_iff.1 (hfirst c hc)
  rw [Entry.key_le_iff, hdue, hs.ranked e he, hs.ranked c hc, hevent, hturn] at hbefore
  rcases hbefore with hlt | ⟨-, hrank⟩
  · exact hlt
  · cases duty <;> simp [Ranked.rank, Duty.rank] at hrank hduty

/-- The compromise of an armed agent is dispatched. -/
theorem Armed.turn (ha : Armed index due p log sim) (hs : sim.Sound)
    (h : sim.Steps r (some e) sim') (he : e.event = .duty index .compromise) :
    ∃ p', Turned index due p' (log ++ [sim.occurrence e r]) sim' := by
  obtain ⟨q, takes, touches⟩ := h.touches index
  obtain ⟨-, -, hstop, hclock, -, hearly⟩ := h.goes hs
  have htaken := takes.dues_self
  rw [he, show sim.world.queue.dues _ = [due] from ha.pending, List.singleton_perm] at htaken
  obtain ⟨hdue, hrest⟩ := List.cons_eq_cons.1 htaken
  have honTime : (sim.occurrence e r).OnTime index due := by
    refine ⟨fun _ => hdue.symm, fun duty hduty hd => ?_⟩
    exact absurd (Event.duty.inj (he.symm.trans hd)).2.symm hduty
  cases touches with
  | spared _ _ turn =>
    have hleader := turn he p ha.part ha.running
    rw [ha.plain, ha.role] at hleader
    cases hleader
  | starts event => cases he.symm.trans event
  | @turns p' _ before running part dues =>
    rw [show (sim.withQueue q).dues _ = [] from hrest.symm, List.perm_nil] at dues
    refine ⟨_, part, by rw [running]; exact nofun, rfl, dues, ?_, ?_,
      forall_mem_snoc ha.onTime honTime, ?_⟩
    · rw [hclock, hdue]
      exact Nat.le_refl _
    · rw [hstop, hdue]
      exact hearly
    · rw [turnsIn_append, ha.never, turnsIn_singleton (by exact he)]

/-- Something else is dispatched while an agent is armed. -/
theorem Armed.wait (ha : Armed index due p log sim) (hs : sim.Sound)
    (h : sim.Steps r (some e) sim') (he : e.event ≠ .duty index .compromise) :
    Armed index due p (log ++ [sim.occurrence e r]) sim' := by
  obtain ⟨q, takes, touches⟩ := h.touches index
  have hleft := takes.dues_of_ne he
  rw [show sim.world.queue.dues _ = [due] from ha.pending, List.singleton_perm] at hleft
  have honTime : (sim.occurrence e r).OnTime index due := by
    refine ⟨fun h => absurd h he, fun duty hduty hd => ?_⟩
    have hd : e.event = .duty index duty := hd
    have hlt := ha.due_lt hs takes.first takes.mem hduty hd
    show sim.roleFor e.event = some (roleAt due e.due)
    rw [hd, roleFor_duty ha.part, ha.role, roleAt, if_pos hlt]
  cases touches with
  | spared part _ _ _ duties =>
    have hsame := duties .compromise fun _ => rfl
    rw [show (sim.withQueue q).dues _ = [due] from hleft.symm, List.perm_singleton] at hsame
    refine ⟨part.trans ha.part, ha.running, ha.role, ha.plain, hsame, (h.goes hs).2.1,
      forall_mem_snoc ha.onTime honTime, ?_⟩
    rw [turnsIn_append, ha.never, turnsIn_singleton_of_ne (by exact he)]
  | starts _ before fresh =>
    cases (show sim.parts[index]? = some _ from before).symm.trans ha.part
    rw [ha.running] at fresh
    cases fresh
  | turns event => exact absurd event he

theorem Turned.step (ht : Turned index due p log sim) (hs : sim.Sound)
    (h : sim.Steps r (some e) sim') : Turned index due p (log ++ [sim.occurrence e r]) sim' := by
  obtain ⟨q, takes, touches⟩ := h.touches index
  obtain ⟨-, -, hstop, hclock, hle, -⟩ := h.goes hs
  have hpassed : due ≤ e.due := Nat.le_trans ht.passed hle
  have hne : e.event ≠ .duty index .compromise := by
    intro he
    have hmem : e.due ∈ sim.dues e.event := EventQueue.mem_dues.2 ⟨e, takes.mem, rfl, rfl⟩
    rw [he, ht.pending] at hmem
    cases hmem
  have hleft := takes.dues_of_ne hne
  rw [show sim.world.queue.dues _ = [] from ht.pending, List.nil_perm] at hleft
  have honTime : (sim.occurrence e r).OnTime index due := by
    refine ⟨fun h => absurd h hne, fun duty _ hd => ?_⟩
    have hd : e.event = .duty index duty := hd
    have hnot : ¬ e.due < due := Nat.not_lt.2 hpassed
    show sim.roleFor e.event = some (roleAt due e.due)
    rw [hd, roleFor_duty ht.part, ht.role, roleAt, if_neg hnot]
  cases touches with
  | spared part _ _ _ duties =>
    have hsame := duties .compromise fun _ => rfl
    rw [show (sim.withQueue q).dues _ = [] from hleft, List.perm_nil] at hsame
    refine ⟨part.trans ht.part, ht.awake, ht.role, hsame, hclock ▸ hpassed, hstop ▸ ht.early,
      forall_mem_snoc ht.onTime honTime, ?_⟩
    rw [turnsIn_append, ht.once, turnsIn_singleton_of_ne (by exact hne)]
  | starts _ before fresh =>
    cases (show sim.parts[index]? = some _ from before).symm.trans ht.part
    exact absurd fresh ht.awake
  | turns event => exact absurd event hne

/-- The end of a run drains the queue, and no agent changes its role. -/
theorem Phase.end (hp : Phase index time due log sim) (hs : sim.Sound) {q : EventQueue Event}
    (unfinished : sim.finished = false) (drained : sim.world.queue.Drained q)
    (late : ∀ e ∈ sim.world.queue.live, sim.world.queue.stopsBy e.due)
    (ends : (sim.withQueue q).Ends sim') : Phase index time due log sim' := by
  have hdrained : sim.world.queue.Drained sim'.world.queue := ends.drained _ drained
  have hpart : ∀ {p}, sim.parts[index]? = some p → sim'.parts[index]? = some p.ended := by
    intro p hp
    rw [ends.parts, List.getElem?_map]
    exact congrArg (Option.map Part.ended) hp
  have hrole : ∀ p : Part, p.ended.role = p.role := by
    intro p
    unfold Part.ended
    split <;> rfl
  cases hp with
  | @unstarted p hu =>
    have hended : p.ended = p := if_neg (by rw [hu.fresh]; decide)
    refine .unstarted ⟨(hpart hu.part).trans (congrArg some hended), hu.fresh, hu.role, hu.plain,
      hu.planned, fun t ht => ?_, fun duty => hdrained.dues _, hu.quiet, hu.failed⟩
    rw [show sim'.dues _ = [] from hdrained.dues _] at ht
    exact absurd ht List.not_mem_nil
  | @armed p ha =>
    obtain ⟨c, hc, -, hdue⟩ := ha.exists_entry
    refine .missed ⟨hpart ha.part, (hrole p).trans ha.role, ends.finished, ?_, ha.onTime, ha.never⟩
    rw [ends.stopTime, ← hdue]
    exact (EventQueue.stopsBy_iff hs.stop).1 (late c hc)
  | @turned p ht =>
    refine .turned ⟨hpart ht.part, ?_, (hrole p).trans ht.role, hdrained.dues _, ?_, ?_,
      ht.onTime, ht.once⟩
    · unfold Part.ended
      split
      · intro hstage
        cases hstage
      · exact ht.awake
    · rw [World.clock, hdrained.clock]
      exact ht.passed
    · rw [ends.stopTime]
      exact ht.early
  | missed hm => cases unfinished.symm.trans hm.finished

/-- Every step leads from a phase to a phase. -/
theorem Phase.step {e : Option (Entry Event)} (hp : Phase index time due log sim) (hs : sim.Sound)
    (h : sim.Steps r e sim') : Phase index time due (log ++ sim.occurrences r) sim' := by
  cases e with
  | none =>
    rw [h.occurrences_none, List.append_nil]
    cases h with
    | still => exact hp
    | ended unfinished _ drained late ends => exact hp.end hs unfinished drained late ends
  | some e =>
    rw [h.occurrences_some]
    cases hp with
    | unstarted hu => exact hu.step hs h
    | armed ha =>
      by_cases he : e.event = .duty index .compromise
      · obtain ⟨p', ht⟩ := ha.turn hs h he
        exact .turned ht
      · exact .armed (ha.wait hs h he)
    | turned ht => exact .turned (ht.step hs h)
    | missed hm => exact absurd hm.finished (by rw [(h.goes hs).1]; exact nofun)

theorem Phase.withRefused (hp : Phase index time due log sim) (refused : Registry Unit) :
    Phase index time due log (sim.withRefused refused) := by
  cases hp with
  | unstarted h => exact .unstarted { h with }
  | armed h => exact .armed { h with }
  | turned h => exact .turned { h with }
  | missed h => exact .missed { h with }

/-! ## A whole run -/

/-- A follower that a compromise is planned for has not started in the beginning. -/
theorem Built.phase {s : Settings} {start : Instant} {c : Craft} (h : sim.Built s)
    (hcraft : sim.crafts[index]? = some c) (hrole : c.agent.role = .follower)
    (hplanned : (sim.ledger.bind fun l => l.dueFor c.agent.id).isSome)
    (hstart : s.followerStart = .ok start) (htime : s.compromiseTime = .ok (some time)) :
    Phase index time (start.max time) [] sim := by
  obtain ⟨hfresh, -, hplain⟩ := h.fresh (List.mem_of_getElem? hcraft)
  obtain ⟨due, hdue⟩ := Option.isSome_iff_exists.1 hplanned
  cases h.dueFor_eq htime hdue
  obtain ⟨shared, -, hcrafts⟩ := h.crafts
  obtain ⟨id, position, rfl⟩ := hcrafts index c hcraft
  have hindex : index ≠ 0 := by
    rintro rfl
    cases hrole
  have hpart : sim.parts[index]? =
      some (firstCraft shared sim.ledger index id position).agent.part := by
    rw [Run.getElem?_parts, hcraft]
    rfl
  refine .unstarted ⟨hpart, hfresh, hrole, hplain, hdue, fun t ht => ?_, fun duty => ?_, nofun,
    nofun⟩
  · obtain ⟨e, he, hevent, rfl⟩ := EventQueue.mem_dues.1 ht
    rcases h.first_of_live hstart he with ⟨i, hi, hdue⟩ | hsample
    · cases hi.symm.trans hevent
      rw [hdue hindex]
    · cases hsample.symm.trans hevent
  · refine List.eq_nil_iff_forall_not_mem.2 fun t ht => ?_
    obtain ⟨e, he, hevent, -⟩ := EventQueue.mem_dues.1 ht
    rcases h.first_of_live hstart he with ⟨i, hi, -⟩ | hsample
    · cases hi.symm.trans hevent
    · cases hsample.symm.trans hevent

theorem Reaches.phase {first : Simulation} (h : first.Reaches log sim) (hs : first.Sound)
    (hp : Phase index time due [] first) : Phase index time due log sim :=
  h.induction hs hp (fun _ _ refused hp => hp.withRefused refused)
    fun _ _ _ _ _ hs hsteps hp => hp.step hs hsteps

theorem Phase.onTime (hp : Phase index time due log sim) : ∀ o ∈ log, o.OnTime index due := by
  cases hp with
  | unstarted h => exact onTime_of_quiet h.quiet
  | armed h => exact h.onTime
  | turned h => exact h.onTime
  | missed h => exact h.onTime

theorem Phase.turnsIn_le_one (hp : Phase index time due log sim) : turnsIn index log ≤ 1 := by
  cases hp with
  | unstarted h =>
    rw [turnsIn_eq_zero fun o ho => h.quiet o ho .compromise]
    exact Nat.zero_le 1
  | armed h => exact h.never.le.trans (Nat.zero_le 1)
  | turned h => exact h.once.le
  | missed h => exact h.never.le.trans (Nat.zero_le 1)

theorem Unstarted.not_started (hu : Unstarted index time due p log sim) :
    ¬ ∃ o ∈ log, o.event = .start index ∧ o.succeeded = true := by
  rintro ⟨o, ho, hevent, hok⟩
  rw [hu.failed o ho hevent] at hok
  cases hok

/-- An agent that has started has turned as soon as the time for it is over. -/
theorem Phase.turnsIn_eq_one (hp : Phase index time due log sim) (hs : sim.Sound)
    (hstarted : ∃ o ∈ log, o.event = .start index ∧ o.succeeded = true)
    (hearly : due < sim.stopTime) (hpast : sim.finished = true ∨ due < sim.now) :
    turnsIn index log = 1 := by
  cases hp with
  | unstarted hu => exact absurd hstarted hu.not_started
  | armed ha =>
    obtain ⟨c, hc, -, hdue⟩ := ha.exists_entry
    have hahead := hs.queue.ahead c (EventQueue.mem_live.1 hc).1
    rw [hdue] at hahead
    rcases hpast with hfinished | hnow
    · exact absurd hfinished (by rw [ha.unfinished]; exact nofun)
    · rw [now, ha.unfinished] at hnow
      exact absurd hahead (Duration.not_le.2 hnow)
  | turned ht => exact ht.once
  | missed hm => exact absurd hm.late (Duration.not_le.2 hearly)

/-- An agent whose compromise comes too late stays as it is. -/
theorem Phase.stays (hp : Phase index time due log sim)
    (hstarted : ∃ o ∈ log, o.event = .start index ∧ o.succeeded = true)
    (hlate : sim.stopTime ≤ due) : turnsIn index log = 0 ∧
      ∃ p, sim.parts[index]? = some p ∧ p.role = .follower := by
  cases hp with
  | unstarted hu => exact absurd hstarted hu.not_started
  | armed ha => exact ⟨ha.never, _, ha.part, ha.role⟩
  | turned ht => exact absurd hlate (Duration.not_le.2 ht.early)
  | missed hm => exact ⟨hm.never, _, hm.part, hm.role⟩

/-- The follower of a pair starts although the leader cannot. -/
theorem pair_started : ∃ first j' c log sim, withPositions .pair [⟨0.0, 0.0, 0.0⟩, ⟨1.0, 0.0, 0.0⟩]
    (.recorder {}) (Journal.ofThreshold none) = .ok first j' ∧ first.crafts[1]? = some c ∧
      c.agent.role = .follower ∧ (first.ledger.bind fun l => l.dueFor c.agent.id).isSome ∧
      first.Reaches log sim ∧ (∃ o ∈ log, o.event = .start 1 ∧ o.succeeded = true) ∧
      sim.finished = false ∧
      ∃ follower, sim.crafts[1]? = some follower ∧ follower.agent.stage = .running := by
  obtain ⟨first, j', c, hbuilt, hcraft, hrole, hplanned, hids⟩ := exists_pair
  have hb := built_of_withPositions hbuilt
  obtain ⟨m, hp⟩ := hb.paced Settings.pair_runnable
  have hlength : first.crafts.length = 2 := by simpa using congrArg List.length hids
  have hnetwork : first.world.network = Network.ofLink first.world.network.link := hb.network
  obtain ⟨hearly, hlive⟩ := hb.live_of_pair hlength
  have hid : ∀ {i : Nat} {c : Craft}, first.crafts[i]? = some c →
      [Address.ofOctets 10 1 1 1, .ofOctets 10 1 1 2][i]? = some c.agent.id := by
    intro i c hc
    rw [← hids, List.getElem?_map, hc]
    rfl
  -- the leader's address is refused, so that its start leaves everything as it was
  obtain ⟨rf, hrf, hcontains⟩ :=
    refuse_of_empty (congrArg Network.refused hnetwork) (.ofOctets 10 1 1 1)
  have hreach := Reaches.refuse (.ofOctets 10 1 1 1) (@Reaches.first first)
  rw [hrf] at hreach
  have hs := hb.sound.withRefused rf
  obtain ⟨r₁, sim₁, e₁, hstep₁, hsteps₁⟩ := hs.step (hp.withRefused rf).room
  have hs₁ := hsteps₁.sound hs
  cases hsteps₁.takes_first hs hb.finished hlive (by decide) hearly
  obtain ⟨c₀, hc₀⟩ : ∃ c₀, first.crafts[0]? = some c₀ :=
    ⟨_, List.getElem?_eq_getElem (by omega)⟩
  obtain ⟨q, ht, rfl⟩ := hsteps₁.start_refused rfl hc₀
    ((hcontains _).2 (Option.some.inj (hid hc₀)).symm)
  obtain ⟨-, hlive₁⟩ := ht.eq_of_first hlive (by decide)
  -- the follower's start is next
  obtain ⟨r₂, sim₂, e₂, hstep₂, hsteps₂⟩ := hs₁.step ((hp.withRefused rf).withQueue q).room
  cases hsteps₂.takes_first hs₁ hb.finished hlive₁ (by decide) hearly
  have hallowed : rf.contains c.agent.id ≠ true := by
    rw [ne_eq, hcontains, ← Option.some.inj (hid hcraft)]
    decide
  obtain ⟨n, hn⟩ := Network.exists_bind_of_empty (n := (first.withRefused rf).world.network)
    (congrArg Network.bound hnetwork) hallowed
  have hok := hsteps₂.start_succeeds rfl hcraft (hb.fresh (List.mem_of_getElem? hcraft)).1 hn
  subst hok
  refine ⟨first, j', c, _, sim₂, hbuilt, hcraft, hrole, hplanned, (hreach.step hstep₁).step hstep₂,
    ⟨((first.withRefused rf).withQueue q).occurrence ⟨.zero, 1, 1, .start 1⟩ (.ok true),
      List.mem_append_right _ ?_, rfl, rfl⟩, (hsteps₂.goes hs₁).2.1, hsteps₂.start_runs rfl⟩
  rw [hsteps₂.occurrences_some]
  exact List.mem_singleton_self _

/-- The compromise of a follower that has started is dispatched just once and just when it is due,
if that is before the stop time, and never otherwise. The follower does everything before as a
follower and everything from then on as a leader. Of runnable settings every run gets there. -/
theorem compromise_on_time {s : Settings} {positions : List Vec3} {telemetry : Telemetry}
    {j j' : Journal} {first : Simulation} {c : Craft} {start : Instant}
    (hbuilt : withPositions s positions telemetry j = .ok first j')
    (hcraft : first.crafts[index]? = some c) (hrole : c.agent.role = .follower)
    (hplanned : (first.ledger.bind fun l => l.dueFor c.agent.id).isSome)
    (hstart : s.followerStart = .ok start) (htime : s.compromiseTime = .ok (some time))
    (hrun : first.Reaches log sim)
    (hstarted : ∃ o ∈ log, o.event = .start index ∧ o.succeeded = true) :
    (∀ o ∈ log, o.event = .duty index .broadcast ∨ o.event = .duty index .compute →
      o.role = some (if o.time < start.max time then .follower else .leader)) ∧
    (∀ o ∈ log, o.event = .duty index .compromise → o.time = start.max time) ∧
    (start.max time < first.stopTime → turnsIn index log ≤ 1 ∧
      (sim.finished = true ∨ start.max time < sim.now → turnsIn index log = 1) ∧
      (s.Runnable → ∀ refused, ∃ n log', first.Reaches (log ++ log') (before refused sim n) ∧
        turnsIn index (log ++ log') = 1)) ∧
    (first.stopTime ≤ start.max time → turnsIn index log = 0 ∧
      ∀ c', sim.crafts[index]? = some c' → c'.agent.role = .follower) := by
  have hb := built_of_withPositions hbuilt
  have hfirst := hb.phase hcraft hrole hplanned hstart htime
  have hp := hrun.phase hb.sound hfirst
  have hstop := hrun.stopTime_eq hb.sound
  refine ⟨fun o ho hevent => ?_, fun o ho => (hp.onTime o ho).turn,
    fun hearly => ⟨hp.turnsIn_le_one,
      hp.turnsIn_eq_one (hrun.sound hb.sound) hstarted (hstop ▸ hearly), fun hr refused => ?_⟩,
    fun hlate => ?_⟩
  · rcases hevent with hevent | hevent
    · exact (hp.onTime o ho).tick .broadcast (by rintro ⟨⟩) hevent
    · exact (hp.onTime o ho).tick .compute (by rintro ⟨⟩) hevent
  · obtain ⟨n, log', hrun', hfinished⟩ := hrun.ends hb hr refused
    refine ⟨n, log', hrun', ?_⟩
    have hstop' := hrun'.stopTime_eq hb.sound
    obtain ⟨o, ho, hok⟩ := hstarted
    exact (hrun'.phase hb.sound hfirst).turnsIn_eq_one (hrun'.sound hb.sound)
      ⟨o, List.mem_append_left _ ho, hok⟩ (hstop' ▸ hearly) (.inl hfinished)
  · obtain ⟨hnever, p, hpart, hfollower⟩ := hp.stays hstarted (hstop ▸ hlate)
    refine ⟨hnever, fun c' hc' => ?_⟩
    rw [Run.getElem?_parts, hc'] at hpart
    cases hpart
    exact hfollower

theorem compromise_on_time_pair : ∃ first j' c log sim, withPositions .pair
    [⟨0.0, 0.0, 0.0⟩, ⟨1.0, 0.0, 0.0⟩] (.recorder {}) (Journal.ofThreshold none) = .ok first j' ∧
      first.crafts[1]? = some c ∧ c.agent.role = .follower ∧
      (first.ledger.bind fun l => l.dueFor c.agent.id).isSome ∧ first.Reaches log sim ∧
      (∃ o ∈ log, o.event = .start 1 ∧ o.succeeded = true) ∧
      ∃ n log', first.Reaches (log ++ log') (before (fun _ => []) sim n) ∧
        turnsIn 1 (log ++ log') = 1 := by
  obtain ⟨first, j', c, log, sim, hbuilt, hcraft, hrole, hplanned, hrun, hstarted, -⟩ :=
    pair_started
  obtain ⟨hstop, hstart, htime⟩ := Settings.pair_times
  have hearly : Duration.max .zero ⟨500000000, by decide⟩ < first.stopTime := by
    rw [Except.ok.inj ((built_of_withPositions hbuilt).stopTime.symm.trans hstop)]
    decide
  have h := compromise_on_time hbuilt hcraft hrole hplanned hstart htime hrun hstarted
  exact ⟨first, j', c, log, sim, hbuilt, hcraft, hrole, hplanned, hrun, hstarted,
    (h.2.2.1 hearly).2.2 Settings.pair_runnable fun _ => []⟩

end Simulation

end SwarmFlight
